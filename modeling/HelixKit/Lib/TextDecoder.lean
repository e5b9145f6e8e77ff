/-
Purpose: The UTF-8 decoder of the web's encoding standard: bytes that are not UTF-8
  become U+FFFD, and a byte order mark at the start is left out.
Trusted boundary: none
-/
import HelixKit.Lib.Transducer

namespace HelixKit.TextDecoding

open HelixKit.Transducers

def replacementCharacter : Char := '\uFFFD'

def byteOrderMark : Char := '\uFEFF'

/-- What has been read of a character: the bits so far, the bytes of it that have come after its
first and how many it needs, and the bounds of the next. -/
structure Utf8 where
  codePoint : Nat := 0
  seen : Nat := 0
  needed : Nat := 0
  lower : UInt8 := 0x80
  upper : UInt8 := 0xBF
deriving Repr, DecidableEq

/-- The first byte of a character. -/
def Utf8.first (byte : UInt8) : Utf8 × List Char :=
  if byte ≤ 0x7F then ({}, [Char.ofNat byte.toNat])
  else if 0xC2 ≤ byte ∧ byte ≤ 0xDF then
    ({ needed := 1, codePoint := byte.toNat &&& 0x1F }, [])
  else if 0xE0 ≤ byte ∧ byte ≤ 0xEF then
    ({ needed := 2
       codePoint := byte.toNat &&& 0xF
       lower := if byte = 0xE0 then 0xA0 else 0x80
       upper := if byte = 0xED then 0x9F else 0xBF }, [])
  else if 0xF0 ≤ byte ∧ byte ≤ 0xF4 then
    ({ needed := 3
       codePoint := byte.toNat &&& 0x7
       lower := if byte = 0xF0 then 0x90 else 0x80
       upper := if byte = 0xF4 then 0x8F else 0xBF }, [])
  else ({}, [replacementCharacter])

/-- One byte. One that does not continue the character is read again as a first byte. -/
def Utf8.step (state : Utf8) (byte : UInt8) : Utf8 × List Char :=
  if state.needed = 0 then Utf8.first byte
  else if byte < state.lower ∨ state.upper < byte then
    ((Utf8.first byte).1, replacementCharacter :: (Utf8.first byte).2)
  else
    let codePoint := (state.codePoint <<< 6) ||| (byte.toNat &&& 0x3F)
    if state.seen + 1 = state.needed then ({}, [Char.ofNat codePoint])
    else ({ codePoint := codePoint, seen := state.seen + 1, needed := state.needed }, [])

def utf8 : Transducer Utf8 UInt8 Char where
  step := Utf8.step

/-- Leaves out a byte order mark that is the first character; the state says whether a character
has come. -/
def serialize : Transducer Bool Char Char where
  step := fun bomSeen char => (true, if ¬bomSeen ∧ char = byteOrderMark then [] else [char])

/-- The state of a decoder: the character that is being read, and whether one has been. -/
abbrev TextDecoder := Utf8 × Bool

def newTextDecoder : TextDecoder := ({}, false)

/-- `decode` with `stream: true`, byte by byte. -/
def textDecoder : Transducer TextDecoder UInt8 Char :=
  utf8.compose serialize

/-- All of a text that has ended. -/
def decodeUtf8 (bytes : List UInt8) : List Char :=
  (textDecoder.run newTextDecoder bytes).2 ++
    if (textDecoder.run newTextDecoder bytes).1.1.needed = 0 then [] else [replacementCharacter]

example : decodeUtf8 [0xEF, 0xBB, 0xBF, 0xC3, 0xA9, 0xE2, 0x82, 0xAC, 0x41] = ['é', '€', 'A'] := by
  decide

example : decodeUtf8 [0xE2, 0x41, 0xE2, 0x82] = ['\uFFFD', 'A', '\uFFFD'] := by
  decide

theorem serialize_seen (text : List Char) : serialize.run true text = (true, text) := by
  induction text with
  | nil => rfl
  | cons char rest ih => rw [Transducer.run_cons]; simp [serialize] at ih ⊢; simp [ih]

/-- A text that does not begin with a byte order mark comes through. -/
theorem serialize_unmarked (bomSeen : Bool) (text : List Char)
    (unmarked : text.head? ≠ some byteOrderMark) : (serialize.run bomSeen text).2 = text := by
  cases text with
  | nil => rfl
  | cons char rest =>
    have other : char ≠ byteOrderMark := by simpa using unmarked
    have later := serialize_seen rest
    rw [Transducer.run_cons]
    simp only [serialize, other, and_false, if_false] at later ⊢
    rw [later]
    rfl

end HelixKit.TextDecoding
