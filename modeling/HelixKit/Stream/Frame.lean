/-
Purpose: The HelixStream wire frame (`linux/device/go/internal/stream/frame.go`
  and its TypeScript twin `protocol/src/stream/frame.ts`): one binary message
  per frame, a type byte, a big-endian stream id and the payload.
Trusted boundary: none
-/
import Mathlib.Tactic.Ring

namespace HelixKit.Stream

abbrev Bytes := List UInt8

/-- The frame types of the protocol.  A byte that names none of them decodes to
`unknown`, which no dispatcher handles. -/
inductive FrameType where
  | fOpen
  | fData
  | fEnd
  | fReset
  | fSignal
  | fCredit
  | fPing
  | fPong
  | unknown (code : UInt8)
deriving DecidableEq, Repr

/-- The byte that stands for a frame type on the wire. -/
def FrameType.code : FrameType → UInt8
  | .fOpen => 0x01
  | .fData => 0x02
  | .fEnd => 0x03
  | .fReset => 0x04
  | .fSignal => 0x05
  | .fCredit => 0x06
  | .fPing => 0x10
  | .fPong => 0x11
  | .unknown code => code

/-- Read a type byte. -/
def FrameType.ofCode (code : UInt8) : FrameType :=
  if code = 0x01 then .fOpen
  else if code = 0x02 then .fData
  else if code = 0x03 then .fEnd
  else if code = 0x04 then .fReset
  else if code = 0x05 then .fSignal
  else if code = 0x06 then .fCredit
  else if code = 0x10 then .fPing
  else if code = 0x11 then .fPong
  else .unknown code

variable {type : FrameType}

/-- The types that are ever sent have a name. -/
theorem FrameType.ofCode_code
    (named : ∀ code, type ≠ .unknown code) : FrameType.ofCode type.code = type := by
  cases type with
  | unknown code => exact absurd rfl (named code)
  | _ => rfl

/-- A decoded frame. -/
structure Frame where
  type : FrameType
  streamID : UInt32
  payload : Bytes
deriving DecidableEq, Repr

def frameHeader : Nat := 5

/-- `binary.BigEndian.PutUint32`. -/
def putUint32 (value : UInt32) : Bytes :=
  [UInt8.ofNat (value.toNat / 2 ^ 24), UInt8.ofNat (value.toNat / 2 ^ 16),
    UInt8.ofNat (value.toNat / 2 ^ 8), UInt8.ofNat value.toNat]

/-- `binary.BigEndian.Uint32`. -/
def uint32 (b0 b1 b2 b3 : UInt8) : UInt32 :=
  UInt32.ofNat
    (b0.toNat * 2 ^ 24 + b1.toNat * 2 ^ 16 + b2.toNat * 2 ^ 8 + b3.toNat)

theorem uint32_putUint32 (value : UInt32) :
    uint32 (UInt8.ofNat (value.toNat / 2 ^ 24))
      (UInt8.ofNat (value.toNat / 2 ^ 16)) (UInt8.ofNat (value.toNat / 2 ^ 8))
      (UInt8.ofNat value.toNat) = value := by
  have bound := value.toNat_lt
  have sum :
      value.toNat / 2 ^ 24 % 2 ^ 8 * 2 ^ 24 +
          value.toNat / 2 ^ 16 % 2 ^ 8 * 2 ^ 16 +
        value.toNat / 2 ^ 8 % 2 ^ 8 * 2 ^ 8 + value.toNat % 2 ^ 8 =
      value.toNat := by omega
  apply UInt32.toNat_inj.mp
  simp only [uint32, UInt8.toNat_ofNat', UInt32.toNat_ofNat']
  rw [sum]
  omega

def encodeFrame (type : FrameType) (streamID : UInt32) (payload : Bytes) :
    Bytes :=
  type.code :: (putUint32 streamID ++ payload)

/-- A message shorter than the header is no frame. -/
def decodeFrame : Bytes → Option Frame
  | code :: b0 :: b1 :: b2 :: b3 :: payload =>
    some { type := .ofCode code, streamID := uint32 b0 b1 b2 b3, payload }
  | _ => none

def encodeCredit (granted : UInt32) : Bytes := putUint32 granted

/-- A payload shorter than four bytes grants nothing. -/
def decodeCredit : Bytes → UInt32
  | b0 :: b1 :: b2 :: b3 :: _ => uint32 b0 b1 b2 b3
  | _ => 0

@[simp] theorem decodeFrame_encodeFrame
    (named : ∀ code, type ≠ .unknown code) (streamID : UInt32) (payload : Bytes) :
    decodeFrame (encodeFrame type streamID payload) =
      some { type, streamID, payload } := by
  simp only [encodeFrame, putUint32, List.cons_append, List.nil_append,
    decodeFrame, FrameType.ofCode_code named, uint32_putUint32]

@[simp] theorem decodeCredit_encodeCredit (granted : UInt32) :
    decodeCredit (encodeCredit granted) = granted := by
  simp only [encodeCredit, putUint32, decodeCredit, uint32_putUint32]

/-- The frames among the messages of a connection. -/
def frames (messages : List Bytes) : List Frame :=
  messages.filterMap decodeFrame

@[simp] theorem frames_nil : frames [] = [] := rfl

@[simp] theorem frames_append (first second : List Bytes) :
    frames (first ++ second) = frames first ++ frames second :=
  List.filterMap_append

theorem frames_mono {first second : List Bytes} (isPrefix : first <+: second) :
    frames first <+: frames second :=
  isPrefix.filterMap _

@[simp] theorem frames_encodeFrame
    (named : ∀ code, type ≠ .unknown code) (streamID : UInt32) (payload : Bytes) :
    frames [encodeFrame type streamID payload] = [{ type, streamID, payload }] := by
  rw [frames, List.filterMap_cons_some (decodeFrame_encodeFrame named _ _)]
  rfl

/-- The frame types that belong to one stream, not to the connection. -/
def FrameType.OfStream : FrameType → Bool
  | .fOpen | .fData | .fEnd | .fReset | .fSignal | .fCredit => true
  | .fPing | .fPong | .unknown _ => false

theorem FrameType.OfStream.named (ofStream : type.OfStream)
    (code : UInt8) : type ≠ .unknown code := by
  rintro rfl
  cases ofStream

/-- Whether a frame belongs to the stream `id`. -/
def Frame.isAbout (id : UInt32) (frame : Frame) : Bool :=
  frame.type.OfStream && frame.streamID == id

/-- The frames of one stream, in order. -/
def about (id : UInt32) (history : List Frame) : List Frame :=
  history.filter (Frame.isAbout id)

@[simp] theorem about_nil (id : UInt32) : about id [] = [] := rfl

@[simp] theorem about_append (id : UInt32) (first second : List Frame) :
    about id (first ++ second) = about id first ++ about id second :=
  List.filter_append ..

theorem about_mono {id : UInt32} {first second : List Frame}
    (isPrefix : first <+: second) : about id first <+: about id second :=
  isPrefix.filter _

/-- The DATA bytes of a history, in order. -/
def dataOf (history : List Frame) : Bytes :=
  history.flatMap fun frame => if frame.type = .fData then frame.payload else []

@[simp] theorem dataOf_nil : dataOf [] = [] := rfl

@[simp] theorem dataOf_append (first second : List Frame) :
    dataOf (first ++ second) = dataOf first ++ dataOf second :=
  List.flatMap_append

theorem dataOf_mono {first second : List Frame} (isPrefix : first <+: second) :
    dataOf first <+: dataOf second := by
  obtain ⟨rest, rfl⟩ := isPrefix
  exact ⟨dataOf rest, by simp⟩

/-- The credit granted by a history. -/
def creditOf (history : List Frame) : Nat :=
  (history.map fun frame =>
    if frame.type = .fCredit then (decodeCredit frame.payload).toNat else 0).sum

@[simp] theorem creditOf_nil : creditOf [] = 0 := rfl

@[simp] theorem creditOf_append (first second : List Frame) :
    creditOf (first ++ second) = creditOf first + creditOf second := by
  simp [creditOf]

theorem creditOf_mono {first second : List Frame} (isPrefix : first <+: second) :
    creditOf first ≤ creditOf second := by
  obtain ⟨rest, rfl⟩ := isPrefix
  simp

end HelixKit.Stream
