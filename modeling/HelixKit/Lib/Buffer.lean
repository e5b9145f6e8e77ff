/-
Purpose: Buffers that are written in place, and big-endian words of 32 bits, as sums and as shifts.
Trusted boundary: none
-/
import Mathlib.Algebra.GroupWithZero.Nat
import Mathlib.Algebra.Ring.Int.Defs
import Mathlib.Data.List.Basic

namespace HelixKit.Buffer

/-! ## Writing in place -/

variable {α : Type*}

/-- The buffer with these elements in it from a place on. -/
def put (buffer : List α) (place : Nat) (elements : List α) : List α :=
  buffer.take place ++ elements ++ buffer.drop (place + elements.length)

theorem put_append {front old elements back : List α} (same : old.length = elements.length) :
    put (front ++ old ++ back) front.length elements = front ++ elements ++ back := by
  have head : (front ++ old ++ back).take front.length = front := by
    rw [List.append_assoc, List.take_left]
  have tail : (front ++ old ++ back).drop (front.length + elements.length) = back := by
    rw [← same, ← List.length_append, List.drop_left]
  rw [put, head, tail]

/-- Three parts that fill a buffer, whatever was in it. -/
theorem put_put_put {buffer first second third : List α}
    (filled : buffer.length = first.length + second.length + third.length) :
    put (put (put buffer 0 first) first.length second) (first.length + second.length) third =
      first ++ second ++ third := by
  obtain ⟨a, b, c, rfl, lengthA, lengthB, lengthC⟩ : ∃ a b c : List α, buffer = a ++ b ++ c ∧
      a.length = first.length ∧ b.length = second.length ∧ c.length = third.length := by
    refine ⟨buffer.take first.length, (buffer.drop first.length).take second.length,
      (buffer.drop first.length).drop second.length, ?_, ?_, ?_, ?_⟩
    · rw [List.append_assoc, List.take_append_drop, List.take_append_drop]
    · rw [List.length_take]
      omega
    · rw [List.length_take, List.length_drop]
      omega
    · rw [List.length_drop, List.length_drop]
      omega
  have one : put (a ++ b ++ c) 0 first = first ++ b ++ c := by
    have written : put ([] ++ a ++ (b ++ c)) 0 first = [] ++ first ++ (b ++ c) := put_append lengthA
    simpa using written
  have two : put (first ++ b ++ c) first.length second = first ++ second ++ c := put_append lengthB
  have three : put (first ++ second ++ c) (first.length + second.length) third =
      first ++ second ++ third := by
    have written : put ((first ++ second) ++ c ++ []) (first ++ second).length third =
        (first ++ second) ++ third ++ [] := put_append lengthC
    simpa using written
  rw [one, two, three]

/-! ## Big-endian words -/

/-- The four bytes of a number below 2^32, the highest first. -/
def bigEndian (n : Nat) : List UInt8 :=
  [UInt8.ofNat (n / 2 ^ 24), UInt8.ofNat (n / 2 ^ 16), UInt8.ofNat (n / 2 ^ 8), UInt8.ofNat n]

/-- The number that four bytes are, the highest first. -/
def word (b0 b1 b2 b3 : UInt8) : Nat :=
  b0.toNat * 2 ^ 24 + b1.toNat * 2 ^ 16 + b2.toNat * 2 ^ 8 + b3.toNat

theorem word_lt (b0 b1 b2 b3 : UInt8) : word b0 b1 b2 b3 < 2 ^ 32 := by
  have := b0.toNat_lt
  have := b1.toNat_lt
  have := b2.toNat_lt
  have := b3.toNat_lt
  simp only [word]
  omega

/-- The bytes of a word as a program shifts them out. -/
theorem shifted_eq_bigEndian (v : UInt32) :
    [(v >>> 24).toUInt8, (v >>> 16).toUInt8, (v >>> 8).toUInt8, v.toUInt8] =
      bigEndian v.toNat := by
  have byte : ∀ {w : UInt32} {n : Nat}, w.toNat = n → w.toUInt8 = UInt8.ofNat n := by
    rintro w n rfl
    rw [← UInt8.toNat_inj]
    simp
  have high : (v >>> 24).toNat = v.toNat / 2 ^ 24 := by
    simp [Nat.shiftRight_eq_div_pow]
  have middle : (v >>> 16).toNat = v.toNat / 2 ^ 16 := by
    simp [Nat.shiftRight_eq_div_pow]
  have low : (v >>> 8).toNat = v.toNat / 2 ^ 8 := by
    simp [Nat.shiftRight_eq_div_pow]
  rw [byte high, byte middle, byte low, byte rfl]
  rfl

/-- An `or` of parts that share no bit is their sum. -/
theorem or_eq_add {a b i : Nat} (low : b < 2 ^ i) : a * 2 ^ i ||| b = a * 2 ^ i + b := by
  have sum := Nat.shiftLeft_add_eq_or_of_lt low a
  rw [Nat.shiftLeft_eq] at sum
  exact sum.symm

/-- The word as a program shifts its bytes together. -/
theorem joined_eq_word (b0 b1 b2 b3 : UInt8) :
    (b0.toUInt32 <<< 24 ||| b1.toUInt32 <<< 16 ||| b2.toUInt32 <<< 8 ||| b3.toUInt32).toNat =
      word b0 b1 b2 b3 := by
  have bound0 := b0.toNat_lt
  have bound1 := b1.toNat_lt
  have bound2 := b2.toNat_lt
  have bound3 := b3.toNat_lt
  have shifted0 : (b0.toUInt32 <<< 24).toNat = b0.toNat * 2 ^ 24 := by
    simp [Nat.shiftLeft_eq]
    omega
  have shifted1 : (b1.toUInt32 <<< 16).toNat = b1.toNat * 2 ^ 16 := by
    simp [Nat.shiftLeft_eq]
    omega
  have shifted2 : (b2.toUInt32 <<< 8).toNat = b2.toNat * 2 ^ 8 := by
    simp [Nat.shiftLeft_eq]
    omega
  have or01 : b0.toNat * 2 ^ 24 ||| b1.toNat * 2 ^ 16 = (b0.toNat * 2 ^ 8 + b1.toNat) * 2 ^ 16 := by
    rw [or_eq_add (show b1.toNat * 2 ^ 16 < 2 ^ 24 by omega)]
    omega
  have or012 : (b0.toNat * 2 ^ 8 + b1.toNat) * 2 ^ 16 ||| b2.toNat * 2 ^ 8 =
      (b0.toNat * 2 ^ 16 + b1.toNat * 2 ^ 8 + b2.toNat) * 2 ^ 8 := by
    rw [or_eq_add (show b2.toNat * 2 ^ 8 < 2 ^ 16 by omega)]
    omega
  have or0123 : (b0.toNat * 2 ^ 16 + b1.toNat * 2 ^ 8 + b2.toNat) * 2 ^ 8 ||| b3.toNat =
      word b0 b1 b2 b3 := by
    rw [or_eq_add (show b3.toNat < 2 ^ 8 by omega), word]
    omega
  rw [UInt32.toNat_or, UInt32.toNat_or, UInt32.toNat_or, shifted0, shifted1, shifted2, or01, or012,
    UInt8.toNat_toUInt32, or0123]

end HelixKit.Buffer
