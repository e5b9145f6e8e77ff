/-
Purpose: The cloud half of the offline challenge and response
  (`web/packages/helix-backend/src/device-auth/offline-code.ts`), and its arithmetic of codes,
  which is that of the device.
Trusted boundary: none
-/
import HelixKit.Authd.Codes
import HelixKit.Backend.JsText

namespace HelixKit.Backend.OfflineCode

open HelixKit.Authd (Bytes OfflineBinding digitsOf packed bigEndian)
open HelixKit.Backend.JsText

def codeRawBytes : Nat := 5
def codeChars : Nat := 8
def uidBytes : Nat := 8
/-- `HXOFF1` -/
def offlineDomain : Bytes := [0x48, 0x58, 0x4F, 0x46, 0x46, 0x31]
def bitsPerChar : Nat := 5
def bitsPerByte : Nat := 8
def charMask : Nat := 0x1F
def byteMask : Nat := 0xFF

/-- The `length` of a text: a character outside the basic plane is two units. -/
def utf16Length (text : List Char) : Nat :=
  (text.map fun char => if char.toNat < 0x10000 then 1 else 2).sum

def normalizeCode (code : String) : String :=
  .ofList (((toUpperCase (trim code)).toList.filter (· ≠ '-')).filter (· ≠ ' '))

/-- `encodeCode`; `none` is its `RangeError`. -/
def encodeCode (raw : Bytes) : Option String :=
  if raw.length ≠ codeRawBytes then none
  else
    let packed := raw.foldl (fun packed byte => packed <<< bitsPerByte ||| byte.toNat) 0
    some (.ofList ((List.range codeChars).map fun i =>
      codeAlphabet.getD (packed >>> (bitsPerChar * (codeChars - 1 - i)) &&& charMask) 'A'))

/-- The last `count` bytes of a number, which are written from the last one on. -/
def lowBytes : Nat → Nat → Bytes
  | 0, _ => []
  | i + 1, packed => lowBytes i (packed >>> bitsPerByte) ++ [UInt8.ofNat (packed &&& byteMask)]

/-- `decodeCode`; `none` is its `RangeError`. -/
def decodeCode (code : String) : Option Bytes :=
  let normalized := (normalizeCode code).toList
  if utf16Length normalized ≠ codeChars then none
  else do
    let indices ← normalized.mapM fun char => codeAlphabet.idxOf? char
    return lowBytes codeRawBytes
      (indices.foldl (fun packed index => packed <<< bitsPerChar ||| index) 0)

/-- `lengthPrefixed`; `none` is the `RangeError` of `writeUInt16BE`. -/
def lengthPrefixed (value : String) : Option Bytes :=
  let bytes := value.toUTF8.data.toList
  if bytes.length < 2 ^ 16 then some (lowBytes 2 bytes.length ++ bytes) else none

/-- What `offlineResponse` gives to the HMAC; `none` is a `RangeError` before it. -/
def message (secret : Bytes) (binding : OfflineBinding) : Option Bytes :=
  if secret.length = 0 then none
  else do
    let challenge ← decodeCode binding.challenge
    let deviceId ← lengthPrefixed binding.deviceID
    let userId ← lengthPrefixed binding.userID
    return offlineDomain ++ deviceId ++ userId ++ lowBytes uidBytes binding.linuxUID.toNat ++
      challenge

/-- `offlineResponse`, with the digest of a message under a key; `none` is its `RangeError`. -/
def offlineResponse (createHmac : Bytes → Bytes → Bytes) (secret : Bytes)
    (binding : OfflineBinding) : Option String := do
  let message ← message secret binding
  encodeCode ((createHmac secret message).take codeRawBytes)

/-! ## Shifts and masks are digits -/

/-- Digits that are shifted in are the digits of the number. -/
theorem shifted_eq (bits : Nat) (digits : List Nat) (small : ∀ digit ∈ digits, digit < 2 ^ bits) :
    digits.foldl (fun n digit => n <<< bits ||| digit) 0 = packed bits digits := by
  have stepwise : ∀ (n : Nat), ∀ digit ∈ digits, n <<< bits ||| digit = n * 2 ^ bits + digit := by
    intro n digit member
    rw [← Nat.shiftLeft_add_eq_or_of_lt (small digit member), Nat.shiftLeft_eq]
  rw [packed]
  exact List.foldl_ext _ _ 0 stepwise

theorem digitsOf_succ (bits count n : Nat) :
    digitsOf bits (count + 1) n = digitsOf bits count (n / 2 ^ bits) ++ [n % 2 ^ bits] := by
  have digit : ∀ i, n / 2 ^ bits / 2 ^ (bits * i) = n / 2 ^ (bits * (i + 1)) := by
    intro i
    rw [Nat.div_div_eq_div_mul, ← Nat.pow_add, Nat.mul_succ, Nat.add_comm]
  simp [digitsOf, List.range_succ_eq_map, digit]

theorem bigEndian_succ (count n : Nat) :
    bigEndian (count + 1) n = bigEndian count (n / 2 ^ 8) ++ [UInt8.ofNat (n % 2 ^ 8)] := by
  rw [bigEndian, digitsOf_succ, List.map_append]
  rfl

theorem bigEndian_length (count n : Nat) : (bigEndian count n).length = count := by
  simp [bigEndian, digitsOf]

/-- The bytes tell numbers apart as far as they hold them. -/
theorem bigEndian_mod {count n m : Nat} (same : bigEndian count n = bigEndian count m) :
    n % (2 ^ 8) ^ count = m % (2 ^ 8) ^ count := by
  induction count generalizing n m with
  | zero => rw [Nat.pow_zero, Nat.mod_one, Nat.mod_one]
  | succ count ih =>
    rw [bigEndian_succ, bigEndian_succ] at same
    obtain ⟨front, last⟩ := List.append_inj' same rfl
    have byte : n % 2 ^ 8 = m % 2 ^ 8 := by
      simpa using congrArg UInt8.toNat (List.cons.inj last).1
    rw [Nat.pow_succ', Nat.mod_mul, Nat.mod_mul, byte, ih front]

theorem lowBytes_eq (count n : Nat) : lowBytes count n = bigEndian count n := by
  induction count generalizing n with
  | zero => rfl
  | succ count ih =>
    have masked : n &&& byteMask = n % 2 ^ 8 := Nat.and_two_pow_sub_one_eq_mod n 8
    have shifted : n >>> bitsPerByte = n / 2 ^ 8 := Nat.shiftRight_eq_div_pow n 8
    rw [lowBytes, ih, masked, shifted, bigEndian_succ]

/-- The cloud writes a code as the device does. -/
theorem encodeCode_eq (raw : Bytes) : encodeCode raw = Authd.encodeCode raw := by
  have small : ∀ digit ∈ raw.map UInt8.toNat, digit < 2 ^ 8 := by
    intro digit member
    obtain ⟨byte, -, rfl⟩ := List.mem_map.mp member
    exact byte.toNat_lt
  have number : raw.foldl (fun packed byte => packed <<< bitsPerByte ||| byte.toNat) 0 =
      packed 8 (raw.map UInt8.toNat) := by
    rw [← shifted_eq 8 _ small, List.foldl_map]
    rfl
  have order : (List.range 8).reverse = (List.range 8).map fun i => 7 - i := rfl
  have digit : ∀ n i, n >>> (5 * i) &&& charMask = n / 2 ^ (5 * i) % 2 ^ 5 := by
    intro n i
    rw [← Nat.shiftRight_eq_div_pow]
    exact Nat.and_two_pow_sub_one_eq_mod _ 5
  have digits : ∀ n, (List.range 8).map (fun i => n >>> (5 * (7 - i)) &&& charMask) =
      digitsOf 5 8 n := by
    intro n
    rw [digitsOf, order, List.map_map]
    exact List.map_congr_left fun i _ => digit n (7 - i)
  have letters : ∀ n, (List.range codeChars).map (fun i =>
      codeAlphabet.getD (n >>> (bitsPerChar * (codeChars - 1 - i)) &&& charMask) 'A') =
      (digitsOf 5 8 n).map fun digit => codeAlphabet.getD digit 'A' := by
    intro n
    rw [← digits, List.map_map]
    rfl
  rw [encodeCode, number]
  simp only [letters]
  rfl

/-! ## Reading a code -/

/-- Eight letters of the alphabet. -/
def IsCode (text : List Char) : Prop :=
  text.length = 8 ∧ ∀ char ∈ text, char ∈ codeAlphabet

instance (text : List Char) : Decidable (IsCode text) :=
  @instDecidableAnd _ _ (Nat.decEq _ _) (List.decidableBAll _ text)

/-- The five bytes of a normalized text, if it is a code. -/
def readCode (text : List Char) : Option Bytes :=
  if IsCode text then
    some (bigEndian 5 (packed 5 (text.map fun char => codeAlphabet.idxOf char)))
  else none

theorem readCode_length {text : List Char} {bytes : Bytes} (read : readCode text = some bytes) :
    bytes.length = 5 := by
  unfold readCode at read
  split_ifs at read
  rw [← Option.some.inj read, bigEndian_length]

theorem readCode_isSome {text : List Char} : (readCode text).isSome ↔ IsCode text := by
  unfold readCode
  split_ifs with code
  · simp [code]
  · simp [code]

theorem indices_eq {alphabet text : List Char} (code : ∀ char ∈ text, char ∈ alphabet) :
    (text.mapM fun char => alphabet.idxOf? char) =
      some (text.map fun char => alphabet.idxOf char) := by
  induction text with
  | nil => rfl
  | cons char rest ih =>
    have held := code char List.mem_cons_self
    have found : alphabet.idxOf? char = some (alphabet.idxOf char) :=
      List.findIdx?_eq_some_iff_findIdx_eq.mpr ⟨List.idxOf_lt_length_of_mem held, rfl⟩
    have tail := ih fun other member => code other (List.mem_cons_of_mem char member)
    rw [List.mapM_cons, found, tail]
    rfl

theorem indices_none {alphabet text : List Char} (stray : ¬ ∀ char ∈ text, char ∈ alphabet) :
    (text.mapM fun char => alphabet.idxOf? char) = none := by
  induction text with
  | nil => exact absurd (List.forall_mem_nil _) stray
  | cons char rest ih =>
    rw [List.mapM_cons]
    by_cases held : char ∈ alphabet
    · have later : ¬ ∀ char ∈ rest, char ∈ alphabet := by
        intro all
        exact stray (List.forall_mem_cons.mpr ⟨held, all⟩)
      rw [ih later]
      cases alphabet.idxOf? char with
      | none => rfl
      | some index => rfl
    · rw [List.idxOf?_eq_none_iff.mpr held]
      rfl

/-- The letters of the alphabet are one unit and one byte each. -/
theorem utf16Length_code {text : List Char} (code : ∀ char ∈ text, char ∈ codeAlphabet) :
    utf16Length text = text.length := by
  have small : ∀ char ∈ codeAlphabet, char.toNat < 0x10000 :=
    List.all_iff_forall_prop.mp (by decide)
  have ones : text.map (fun char => if char.toNat < 0x10000 then 1 else 2) =
      text.map fun _ => 1 := by
    apply List.map_congr_left
    intro char member
    exact if_pos (small char (code char member))
  rw [utf16Length, ones]
  simp

theorem utf8ByteSize_code {text : List Char} (code : ∀ char ∈ text, char ∈ codeAlphabet) :
    (String.ofList text).utf8ByteSize = text.length := by
  have small : ∀ char ∈ codeAlphabet, char.utf8Size = 1 :=
    List.all_iff_forall_prop.mp (by decide)
  induction text with
  | nil => rfl
  | cons char rest ih =>
    have tail := ih fun other member => code other (List.mem_cons_of_mem char member)
    rw [String.ofList_cons, String.utf8ByteSize_append, String.utf8ByteSize_singleton, tail,
      small char (code char List.mem_cons_self), List.length_cons, Nat.add_comm]

/-- A text that is measured as a code is, and the number of its letters written out, is read as a
code. -/
theorem readCode_eq {text : List Char} {size : Nat} {bytesOf : List Nat → Bytes}
    (sized : (∀ char ∈ text, char ∈ codeAlphabet) → size = text.length)
    (written : ∀ indices : List Nat, (∀ index ∈ indices, index < 2 ^ 5) →
      bytesOf indices = bigEndian 5 (packed 5 indices)) :
    (if size ≠ 8 then none else do
      let indices ← text.mapM fun char => codeAlphabet.idxOf? char
      return bytesOf indices) = readCode text := by
  by_cases code : ∀ char ∈ text, char ∈ codeAlphabet
  · have small : ∀ index ∈ text.map fun char => codeAlphabet.idxOf char, index < 2 ^ 5 := by
      intro index member
      obtain ⟨char, inside, rfl⟩ := List.mem_map.mp member
      exact List.idxOf_lt_length_of_mem (code char inside)
    rw [sized code, indices_eq code, readCode, ← written _ small]
    by_cases eight : text.length = 8
    · have whole : IsCode text := ⟨eight, code⟩
      rw [if_neg (not_not_intro eight), if_pos whole]
      rfl
    · have short : ¬IsCode text := fun whole => eight whole.1
      rw [if_pos eight, if_neg short]
  · have stray : ¬IsCode text := fun whole => code whole.2
    rw [indices_none code, readCode, if_neg stray]
    split <;> rfl

/-- The cloud reads a code if its normalized text is one. -/
theorem decodeCode_eq (code : String) :
    decodeCode code = readCode (normalizeCode code).toList := by
  have written : ∀ indices : List Nat, (∀ index ∈ indices, index < 2 ^ 5) →
      lowBytes codeRawBytes
        (indices.foldl (fun packed index => packed <<< bitsPerChar ||| index) 0) =
      bigEndian 5 (packed 5 indices) := by
    intro indices small
    rw [lowBytes_eq, ← shifted_eq 5 indices small]
    rfl
  rw [← readCode_eq utf16Length_code written]
  rfl

/-- The device reads a code if the text that it normalizes is one. -/
theorem device_decodeCode_eq (code : String) :
    Authd.decodeCode code = readCode (Authd.normalizeCode code).toList := by
  have sized : (∀ char ∈ (Authd.normalizeCode code).toList, char ∈ codeAlphabet) →
      (Authd.normalizeCode code).utf8ByteSize = (Authd.normalizeCode code).toList.length := by
    intro letters
    rw [← utf8ByteSize_code letters, String.ofList_toList]
  rw [← readCode_eq sized fun _ _ => rfl]
  rfl

/-! ## Writing the fields -/

theorem lengthPrefixed_eq (value : String) :
    lengthPrefixed value =
      if value.utf8ByteSize < 2 ^ 16 then some (Authd.writeLengthPrefixed value) else none := by
  have size : value.toUTF8.data.toList.length = value.utf8ByteSize := rfl
  rw [lengthPrefixed, size, lowBytes_eq]
  rfl

end HelixKit.Backend.OfflineCode
