/-
Purpose: The frames of a WebSocket client on the wire: a header with the length and the mask, and
  the masked payload.
Trusted boundary: none
-/
import Mathlib.Algebra.GroupWithZero.Nat
import Mathlib.Algebra.Ring.Int.Defs
import Mathlib.Data.List.Basic

namespace HelixKit.WebSocketFrames

abbrev Bytes := List UInt8

/-! ## Numbers -/

/-- The lowest `k` bytes of a number, the highest first. -/
def numberBytes : Nat → Nat → Bytes
  | 0, _ => []
  | k + 1, n => UInt8.ofNat (n / 256 ^ k) :: numberBytes k (n % 256 ^ k)

def number (bytes : Bytes) : Nat := bytes.foldl (fun n b => 256 * n + b.toNat) 0

@[simp] theorem length_numberBytes (k n : Nat) : (numberBytes k n).length = k := by
  induction k generalizing n with
  | zero => rfl
  | succ k ih => rw [numberBytes, List.length_cons, ih]

theorem foldl_numberBytes {k n : Nat} (fits : n < 256 ^ k) (high : Nat) :
    (numberBytes k n).foldl (fun n b => 256 * n + b.toNat) high = 256 ^ k * high + n := by
  induction k generalizing n high with
  | zero =>
    obtain rfl : n = 0 := by
      rw [Nat.pow_zero] at fits
      omega
    simp [numberBytes]
  | succ k ih =>
    have positive : 0 < 256 ^ k := Nat.pow_pos (by decide)
    have digit : n / 256 ^ k < 256 := by
      rw [Nat.div_lt_iff_lt_mul positive, Nat.mul_comm, ← Nat.pow_succ]
      exact fits
    have byte : (UInt8.ofNat (n / 256 ^ k)).toNat = n / 256 ^ k := by
      rw [UInt8.toNat_ofNat']
      exact Nat.mod_eq_of_lt digit
    have parts := Nat.div_add_mod n (256 ^ k)
    rw [numberBytes, List.foldl_cons, byte, ih (Nat.mod_lt n positive)]
    calc 256 ^ k * (256 * high + n / 256 ^ k) + n % 256 ^ k
        = 256 ^ k * 256 * high + (256 ^ k * (n / 256 ^ k) + n % 256 ^ k) := by
          rw [Nat.mul_add, Nat.mul_assoc, Nat.add_assoc]
      _ = 256 ^ (k + 1) * high + n := by rw [parts, Nat.pow_succ]

theorem number_numberBytes {k n : Nat} (fits : n < 256 ^ k) : number (numberBytes k n) = n := by
  rw [number, foldl_numberBytes fits]
  omega

/-! ## Masks -/

/-- The bytes with the mask on them, or off them, again from its start after its last byte. -/
def applyMask (mask : Bytes) : Bytes → Bytes
  | [] => []
  | b :: rest => (b ^^^ mask.headD 0) :: applyMask (mask.rotateLeft 1) rest

@[simp] theorem length_applyMask (mask bytes : Bytes) : (applyMask mask bytes).length = bytes.length := by
  induction bytes generalizing mask with
  | nil => rfl
  | cons b rest ih => rw [applyMask, List.length_cons, ih, List.length_cons]

@[simp] theorem applyMask_applyMask (mask bytes : Bytes) :
    applyMask mask (applyMask mask bytes) = bytes := by
  induction bytes generalizing mask with
  | nil => rfl
  | cons b rest ih => rw [applyMask, applyMask, ih, UInt8.xor_assoc, UInt8.xor_self, UInt8.xor_zero]

/-! ## Frames -/

/-- A frame as a client sends it. -/
structure Frame where
  opcode : Fin 16
  final : Bool
  mask : Bytes
  payload : Bytes
  masked : mask.length = 4
  fits : payload.length < 2 ^ 63
deriving DecidableEq

structure Header where
  opcode : Fin 16
  final : Bool
  length : Nat
  mask : Bytes
deriving DecidableEq, Repr

def Frame.header (frame : Frame) : Header :=
  { opcode := frame.opcode, final := frame.final, length := frame.payload.length,
    mask := frame.mask }

/-- The seven bits of the length, and the bytes that follow it. -/
def lengthBytes (n : Nat) : Nat × Bytes :=
  if n < 126 then (n, []) else if n < 2 ^ 16 then (126, numberBytes 2 n) else (127, numberBytes 8 n)

/-- The opcode in the first byte, and its highest bit. -/
def opcodeOf (first : UInt8) : Fin 16 := ⟨first.toNat % 16, Nat.mod_lt _ (by decide)⟩
def finalOf (first : UInt8) : Bool := 128 ≤ first.toNat

def firstByte (opcode : Fin 16) (final : Bool) : UInt8 :=
  UInt8.ofNat (opcode + if final then 128 else 0)

theorem opcodeOf_firstByte (opcode : Fin 16) (final : Bool) :
    opcodeOf (firstByte opcode final) = opcode := by
  revert opcode final
  decide

theorem finalOf_firstByte (opcode : Fin 16) (final : Bool) :
    finalOf (firstByte opcode final) = final := by
  revert opcode final
  decide

/-- The payload on the wire. -/
def Frame.body (frame : Frame) : Bytes := applyMask frame.mask frame.payload

def Frame.encode (frame : Frame) : Bytes :=
  let length := lengthBytes frame.payload.length
  firstByte frame.opcode frame.final :: UInt8.ofNat (128 + length.1) ::
    (length.2 ++ frame.mask ++ frame.body)

/-- How many bytes of the length follow its seven bits. -/
def extended (bits : Nat) : Nat := if bits = 126 then 2 else if bits = 127 then 8 else 0

/-- A header, and what is left of the stream. A header without a mask is refused. -/
def readHeader : Bytes → Option (Header × Bytes)
  | first :: second :: rest =>
    let bits := second.toNat % 128
    let more := extended bits
    if second.toNat < 128 ∨ rest.length < more + 4 then none
    else
      some (
        { opcode := opcodeOf first
          final := finalOf first
          length := if more = 0 then bits else number (rest.take more)
          mask := (rest.drop more).take 4 },
        rest.drop (more + 4))
  | _ => none

theorem readHeader_lt {stream rest : Bytes} {header : Header}
    (read : readHeader stream = some (header, rest)) : rest.length < stream.length := by
  rcases stream with _ | ⟨first, _ | ⟨second, stream⟩⟩
  · cases read
  · cases read
  · simp only [readHeader] at read
    split at read
    · cases read
    · obtain ⟨-, rfl⟩ := Prod.mk.inj (Option.some.inj read)
      rw [List.length_drop, List.length_cons, List.length_cons]
      omega

theorem lengthBytes_spec {n : Nat} (fits : n < 2 ^ 63) :
    (lengthBytes n).1 < 128 ∧ (lengthBytes n).2.length = extended (lengthBytes n).1 ∧
      (if extended (lengthBytes n).1 = 0 then (lengthBytes n).1 else number (lengthBytes n).2) = n := by
  unfold lengthBytes
  split
  next short =>
    have none_ : extended n = 0 := by
      rw [extended, if_neg (by omega), if_neg (by omega)]
    exact ⟨by dsimp only; omega, by simp [none_], by simp [none_]⟩
  split
  next medium =>
    exact ⟨by simp, by simp [extended],
      by simpa [extended] using number_numberBytes (k := 2) medium⟩
  · have large : n < 256 ^ 8 := by omega
    exact ⟨by simp, by simp [extended], by simpa [extended] using number_numberBytes large⟩

/-- The header of a frame is read, and its payload is left. -/
theorem readHeader_encode (frame : Frame) (rest : Bytes) :
    readHeader (frame.encode ++ rest) = some (frame.header, frame.body ++ rest) := by
  obtain ⟨small, length, value⟩ := lengthBytes_spec frame.fits
  have masked := frame.masked
  have second : (UInt8.ofNat (128 + (lengthBytes frame.payload.length).1)).toNat =
      128 + (lengthBytes frame.payload.length).1 := by
    rw [UInt8.toNat_ofNat']
    omega
  have bits : (128 + (lengthBytes frame.payload.length).1) % 128 =
      (lengthBytes frame.payload.length).1 := by omega
  unfold Frame.encode
  generalize lengthBytes frame.payload.length = size at *
  simp only [List.cons_append, readHeader]
  rw [second, bits, opcodeOf_firstByte, finalOf_firstByte]
  have enough : ¬ (128 + size.1 < 128 ∨
      (size.2 ++ frame.mask ++ frame.body ++ rest).length < extended size.1 + 4) := by
    simp only [List.length_append]
    omega
  have front : (size.2 ++ frame.mask ++ frame.body ++ rest).take (extended size.1) = size.2 := by
    rw [List.append_assoc, List.append_assoc]
    exact List.take_left' length
  have behind : (size.2 ++ frame.mask ++ frame.body ++ rest).drop (extended size.1) =
      frame.mask ++ (frame.body ++ rest) := by
    rw [List.append_assoc, List.append_assoc]
    exact List.drop_left' length
  have left : (size.2 ++ frame.mask ++ frame.body ++ rest).drop (extended size.1 + 4) =
      frame.body ++ rest := by
    rw [← List.drop_drop, behind]
    exact List.drop_left' masked
  rw [if_neg enough, front, behind, left, value, List.take_left' masked]
  rfl

end HelixKit.WebSocketFrames
