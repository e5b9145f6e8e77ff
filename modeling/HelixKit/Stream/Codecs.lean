/-
Purpose: The three codecs of HelixStream frames and credits, in Go (`internal/stream/frame.go`),
  TypeScript (`protocol/src/stream/frame.ts`) and C (`helix_stream.c`), as each is written.
Trusted boundary: none
Main exports: codecs_agree
-/
import HelixKit.Lib.Buffer
import HelixKit.Stream.Frame

namespace HelixKit.Stream.Codecs

open HelixKit.Buffer

/-- A frame with its type as the byte it is. -/
structure RawFrame where
  type : UInt8
  streamID : UInt32
  payload : Bytes
deriving DecidableEq, Repr

def byteAt (data : Bytes) (i : Nat) : UInt8 := data.getD i 0

/-! ## Go -/

namespace Go

def encodeFrame (t : UInt8) (streamID : UInt32) (payload : Bytes) : Bytes :=
  let buf := List.replicate (frameHeader + payload.length) 0
  let buf := put buf 0 [t]
  let buf := put buf 1 (putUint32 streamID)
  put buf frameHeader payload

def decodeFrame (data : Bytes) : Option RawFrame :=
  if data.length < frameHeader then none
  else
    some {
      type := byteAt data 0
      streamID := uint32 (byteAt data 1) (byteAt data 2) (byteAt data 3) (byteAt data 4)
      payload := data.drop frameHeader }

def encodeCredit (n : UInt32) : Bytes := put (List.replicate 4 0) 0 (putUint32 n)

def decodeCredit (p : Bytes) : UInt32 :=
  if p.length < 4 then 0 else uint32 (byteAt p 0) (byteAt p 1) (byteAt p 2) (byteAt p 3)

end Go

/-! ## TypeScript -/

namespace Ts

/-- A view of a buffer. -/
structure Uint8Array where
  buffer : Bytes
  byteOffset : Nat
  length : Nat
  fits : byteOffset + length ≤ buffer.length

/-- `new Uint8Array(n)`, when it has been filled with these bytes. -/
def Uint8Array.ofBytes (bytes : Bytes) : Uint8Array :=
  { buffer := bytes, byteOffset := 0, length := bytes.length, fits := by omega }

/-- The bytes that are viewed. -/
def Uint8Array.bytes (view : Uint8Array) : Bytes :=
  (view.buffer.drop view.byteOffset).take view.length

def Uint8Array.subarray (view : Uint8Array) (start : Nat) : Uint8Array where
  buffer := view.buffer
  byteOffset := view.byteOffset + min start view.length
  length := view.length - min start view.length
  fits := by
    have := view.fits
    omega

/-- `view[i]`, a number. -/
def Uint8Array.get (view : Uint8Array) (i : Nat) : Int :=
  (byteAt view.buffer (view.byteOffset + i)).toNat

/-- `new DataView(view.buffer, view.byteOffset, view.byteLength).getUint32(i, false)` -/
def Uint8Array.getUint32 (view : Uint8Array) (i : Nat) : Int :=
  let at_ := view.byteOffset + i
  word (byteAt view.buffer at_) (byteAt view.buffer (at_ + 1)) (byteAt view.buffer (at_ + 2))
    (byteAt view.buffer (at_ + 3))

/-- `n >>> 0` -/
def toUint32 (n : Int) : Nat := (n % 2 ^ 32).toNat

/-- `new DataView(buffer).setUint32(i, n, false)` -/
def setUint32 (buffer : Bytes) (i : Nat) (n : Nat) : Bytes := put buffer i (bigEndian n)

/-- Numbers that are integers. -/
structure Frame where
  type : Int
  streamId : Int
  payload : Uint8Array

def encodeFrame (type streamId : Int) (payload : Uint8Array) : Uint8Array :=
  let out := List.replicate (frameHeader + payload.length) 0
  let out := put out 0 [UInt8.ofInt type]
  let out := setUint32 out 1 (toUint32 streamId)
  .ofBytes (put out frameHeader payload.bytes)

def decodeFrame (data : Uint8Array) : Option Frame :=
  if data.length < frameHeader then none
  else
    some {
      type := data.get 0
      streamId := data.getUint32 1
      payload := data.subarray frameHeader }

def encodeCredit (n : Int) : Uint8Array :=
  .ofBytes (setUint32 (List.replicate 4 0) 0 (toUint32 n))

def decodeCredit (p : Uint8Array) : Int :=
  if p.length < 4 then 0 else p.getUint32 0

end Ts

/-! ## C -/

namespace C

/-- The message that `send_frame` sends. `memory` is what `malloc` leaves in the buffer. -/
def encodeFrame (memory : Nat → UInt8) (type : UInt8) (id : UInt32) (payload : Bytes) : Bytes :=
  let header := [type, (id >>> 24).toUInt8, (id >>> 16).toUInt8, (id >>> 8).toUInt8, id.toUInt8]
  let buf := (List.range (frameHeader + payload.length)).map memory
  let buf := put buf 0 header
  if 0 < payload.length then put buf frameHeader payload else buf

/-- The word at a place, shifted together. -/
def readUint32 (data : Bytes) (i : Nat) : UInt32 :=
  (byteAt data i).toUInt32 <<< 24 ||| (byteAt data (i + 1)).toUInt32 <<< 16 |||
    (byteAt data (i + 2)).toUInt32 <<< 8 ||| (byteAt data (i + 3)).toUInt32

/-- What `dispatch_frame` reads of a message before it looks at the type. -/
def decodeFrame (frame : Bytes) : Option RawFrame :=
  if frame.length < frameHeader then none
  else
    some {
      type := byteAt frame 0
      streamID := readUint32 frame 1
      payload := frame.drop frameHeader }

/-- The payload of the `F_CREDIT` that the `F_DATA` arm sends. -/
def encodeCredit (grant : UInt32) : Bytes :=
  [(grant >>> 24).toUInt8, (grant >>> 16).toUInt8, (grant >>> 8).toUInt8, grant.toUInt8]

/-- The `F_CREDIT` arm, which grants nothing for a payload of less than four bytes. -/
def decodeCredit (payload : Bytes) : UInt32 :=
  if payload.length < 4 then 0 else readUint32 payload 0

end C

/-! ## They are one codec -/

/-- The bytes of a frame, for all encoders. -/
def layout (type : UInt8) (streamID : UInt32) (payload : Bytes) : Bytes :=
  [type] ++ bigEndian streamID.toNat ++ payload

theorem toNat_uint32 (b0 b1 b2 b3 : UInt8) : (uint32 b0 b1 b2 b3).toNat = word b0 b1 b2 b3 := by
  rw [uint32, UInt32.toNat_ofNat']
  exact Nat.mod_eq_of_lt (word_lt b0 b1 b2 b3)

theorem readUint32_eq (data : Bytes) (i : Nat) :
    C.readUint32 data i =
      uint32 (byteAt data i) (byteAt data (i + 1)) (byteAt data (i + 2)) (byteAt data (i + 3)) := by
  rw [← UInt32.toNat_inj, toNat_uint32]
  exact joined_eq_word _ _ _ _

theorem Go.encodeFrame_layout (t : UInt8) (streamID : UInt32) (payload : Bytes) :
    Go.encodeFrame t streamID payload = layout t streamID payload := by
  have filled : (List.replicate (frameHeader + payload.length) (0 : UInt8)).length =
      [t].length + (putUint32 streamID).length + payload.length := by
    rw [List.length_replicate]
    rfl
  exact put_put_put filled

theorem Go.decodeFrame_layout (t : UInt8) (streamID : UInt32) (payload : Bytes) :
    Go.decodeFrame (layout t streamID payload) = some ⟨t, streamID, payload⟩ := by
  have read := uint32_putUint32 streamID
  simpa [Go.decodeFrame, layout, bigEndian, frameHeader, byteAt] using read

theorem Ts.length_bytes (view : Ts.Uint8Array) : view.bytes.length = view.length := by
  have := view.fits
  rw [Ts.Uint8Array.bytes, List.length_take, List.length_drop]
  omega

@[simp] theorem Ts.bytes_ofBytes (bytes : Bytes) : (Ts.Uint8Array.ofBytes bytes).bytes = bytes := by
  simp [Ts.Uint8Array.ofBytes, Ts.Uint8Array.bytes]

theorem Ts.toUint32_toNat (n : UInt32) : Ts.toUint32 n.toNat = n.toNat := by
  have := n.toNat_lt
  simp only [Ts.toUint32]
  omega

/-- What a view has at a place is what is at that place in the buffer. -/
theorem Ts.byteAt_bytes (view : Ts.Uint8Array) {i : Nat} (inside : i < view.length) :
    byteAt view.bytes i = byteAt view.buffer (view.byteOffset + i) := by
  simp [byteAt, Ts.Uint8Array.bytes, inside, List.getElem?_drop]

theorem Ts.bytes_subarray (view : Ts.Uint8Array) (start : Nat) (inside : start ≤ view.length) :
    (view.subarray start).bytes = view.bytes.drop start := by
  simp only [Ts.Uint8Array.bytes, Ts.Uint8Array.subarray, Nat.min_eq_left inside]
  rw [List.drop_take, List.drop_drop]

theorem Ts.encodeFrame_layout (type : UInt8) (streamID : UInt32) (payload : Ts.Uint8Array) :
    (Ts.encodeFrame type.toNat streamID.toNat payload).bytes =
      layout type streamID payload.bytes := by
  have byte : UInt8.ofInt (type.toNat : Int) = type := by
    have bound := type.toNat_lt
    have small : ((type.toNat : Int) % 2 ^ 8).toNat = type.toNat := by omega
    rw [UInt8.ofInt, small, UInt8.ofNat_toNat]
  rw [Ts.encodeFrame, Ts.bytes_ofBytes, Ts.toUint32_toNat, byte]
  have filled : (List.replicate (frameHeader + payload.length) (0 : UInt8)).length =
      [type].length + (bigEndian streamID.toNat).length + payload.bytes.length := by
    rw [List.length_replicate, Ts.length_bytes]
    rfl
  exact put_put_put filled

theorem Ts.getUint32_eq (view : Ts.Uint8Array) {i : Nat} (inside : i + 4 ≤ view.length) :
    view.getUint32 i = (uint32 (byteAt view.bytes i) (byteAt view.bytes (i + 1))
      (byteAt view.bytes (i + 2)) (byteAt view.bytes (i + 3))).toNat := by
  rw [toNat_uint32, Ts.byteAt_bytes view (by omega), Ts.byteAt_bytes view (by omega),
    Ts.byteAt_bytes view (by omega), Ts.byteAt_bytes view (by omega)]
  rfl

theorem Ts.decodeFrame_eq (data : Ts.Uint8Array) :
    (Ts.decodeFrame data).map (fun frame => (frame.type, frame.streamId, frame.payload.bytes)) =
      (Go.decodeFrame data.bytes).map fun raw =>
        ((raw.type.toNat : Int), (raw.streamID.toNat : Int), raw.payload) := by
  unfold Ts.decodeFrame Go.decodeFrame
  rw [Ts.length_bytes]
  split
  · rfl
  next long =>
    have inside : frameHeader ≤ data.length := Nat.not_lt.mp long
    have header : frameHeader = 5 := rfl
    have first : data.get 0 = (byteAt data.bytes 0).toNat := by
      rw [Ts.byteAt_bytes data (by omega)]
      rfl
    have id := Ts.getUint32_eq data (i := 1) (by omega)
    simp only [Option.map_some, first, id, Ts.bytes_subarray data frameHeader inside]

theorem C.encodeFrame_layout (memory : Nat → UInt8) (type : UInt8) (id : UInt32) (payload : Bytes) :
    C.encodeFrame memory type id payload = layout type id payload := by
  have header : [type, (id >>> 24).toUInt8, (id >>> 16).toUInt8, (id >>> 8).toUInt8, id.toUInt8] =
      [type] ++ bigEndian id.toNat := by
    rw [← shifted_eq_bigEndian]
    rfl
  have filled : ((List.range (frameHeader + payload.length)).map memory).length =
      ([] : Bytes).length + ([type] ++ bigEndian id.toNat).length + payload.length := by
    rw [List.length_map, List.length_range]
    rfl
  have whole := put_put_put filled
  simp only [C.encodeFrame, header]
  split
  · simpa [put, layout, bigEndian, frameHeader] using whole
  next empty =>
    obtain rfl : payload = [] := List.eq_nil_of_length_eq_zero (by omega)
    simp [put, layout, bigEndian, frameHeader]

/-- The codecs of Go, TypeScript and C write the same bytes and read every byte string alike, and
what is written is read. -/
theorem codecs_agree :
    (∀ (type : UInt8) (streamID : UInt32) (payload : Ts.Uint8Array) (memory : Nat → UInt8),
      (Ts.encodeFrame type.toNat streamID.toNat payload).bytes =
          Go.encodeFrame type streamID payload.bytes ∧
        C.encodeFrame memory type streamID payload.bytes =
          Go.encodeFrame type streamID payload.bytes ∧
        Go.decodeFrame (Go.encodeFrame type streamID payload.bytes) =
          some ⟨type, streamID, payload.bytes⟩) ∧
    (∀ data : Ts.Uint8Array,
      C.decodeFrame data.bytes = Go.decodeFrame data.bytes ∧
        (Ts.decodeFrame data).map (fun frame =>
            (frame.type, frame.streamId, frame.payload.bytes)) =
          (Go.decodeFrame data.bytes).map fun raw =>
            ((raw.type.toNat : Int), (raw.streamID.toNat : Int), raw.payload)) ∧
    (∀ n : UInt32,
      (Ts.encodeCredit n.toNat).bytes = Go.encodeCredit n ∧
        C.encodeCredit n = Go.encodeCredit n ∧ Go.decodeCredit (Go.encodeCredit n) = n) ∧
    (∀ p : Ts.Uint8Array,
      Ts.decodeCredit p = (Go.decodeCredit p.bytes).toNat ∧
        C.decodeCredit p.bytes = Go.decodeCredit p.bytes) := by
  have credit : ∀ n, Go.encodeCredit n = putUint32 n := fun n => rfl
  refine ⟨?_, ?_, ?_, ?_⟩
  · intro type streamID payload memory
    rw [Go.encodeFrame_layout]
    exact ⟨Ts.encodeFrame_layout .., C.encodeFrame_layout .., Go.decodeFrame_layout ..⟩
  · intro data
    refine ⟨?_, Ts.decodeFrame_eq data⟩
    simp only [C.decodeFrame, Go.decodeFrame, readUint32_eq]
  · intro n
    refine ⟨?_, ?_, ?_⟩
    · rw [Ts.encodeCredit, Ts.bytes_ofBytes, Ts.toUint32_toNat]
      rfl
    · exact shifted_eq_bigEndian n
    · rw [credit]
      exact uint32_putUint32 n
  · intro p
    refine ⟨?_, by simp only [C.decodeCredit, Go.decodeCredit, readUint32_eq]⟩
    rw [Ts.decodeCredit, Go.decodeCredit, Ts.length_bytes]
    split
    · rfl
    · exact Ts.getUint32_eq p (by omega)

end HelixKit.Stream.Codecs
