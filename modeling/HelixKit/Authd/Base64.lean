/-
Purpose: Unpadded base64url in both directions: what is written is read back, and which text
  that is read is written again.
Trusted boundary: none
-/
import HelixKit.Backend.OfflineCode
import Mathlib.Data.List.GetD
import Mathlib.Data.List.Induction
import Mathlib.Data.List.Nodup

namespace HelixKit.Authd

open HelixKit.Backend.OfflineCode (digitsOf_succ bigEndian_length indices_eq indices_none)

/-! ### Digits -/

section Digits

variable {bits : Nat}

theorem packed_concat (digits : List Nat) (digit : Nat) :
    packed bits (digits ++ [digit]) = packed bits digits * 2 ^ bits + digit := by
  rw [packed, List.foldl_append]
  rfl

theorem packed_lt {digits : List Nat} (small : ∀ digit ∈ digits, digit < 2 ^ bits) :
    packed bits digits < (2 ^ bits) ^ digits.length := by
  induction digits using List.reverseRecOn with
  | nil => exact Nat.one_pos
  | append_singleton front last ih =>
    have before := ih fun digit member => small digit (List.mem_append_left _ member)
    have digit := small last (List.mem_append_right _ List.mem_cons_self)
    rw [packed_concat, List.length_append, List.length_singleton, Nat.pow_succ]
    calc packed bits front * 2 ^ bits + last
        < packed bits front * 2 ^ bits + 2 ^ bits := Nat.add_lt_add_left digit _
      _ = (packed bits front + 1) * 2 ^ bits := (Nat.succ_mul _ _).symm
      _ ≤ (2 ^ bits) ^ front.length * 2 ^ bits := Nat.mul_le_mul_right _ before

/-- The digits of a number made of digits. -/
theorem digitsOf_packed {digits : List Nat} (small : ∀ digit ∈ digits, digit < 2 ^ bits) :
    digitsOf bits digits.length (packed bits digits) = digits := by
  induction digits using List.reverseRecOn with
  | nil => rfl
  | append_singleton front last ih =>
    have before := ih fun digit member => small digit (List.mem_append_left _ member)
    have digit := small last (List.mem_append_right _ List.mem_cons_self)
    have quotient : (packed bits front * 2 ^ bits + last) / 2 ^ bits = packed bits front := by
      rw [Nat.mul_comm, Nat.mul_add_div (Nat.two_pow_pos bits), Nat.div_eq_of_lt digit,
        Nat.add_zero]
    have remainder : (packed bits front * 2 ^ bits + last) % 2 ^ bits = last := by
      rw [Nat.mul_comm, Nat.mul_add_mod, Nat.mod_eq_of_lt digit]
    rw [List.length_append, List.length_singleton, digitsOf_succ, packed_concat, quotient,
      remainder, before]

/-- The number that its last digits make. -/
theorem packed_digitsOf (count n : Nat) :
    packed bits (digitsOf bits count n) = n % (2 ^ bits) ^ count := by
  induction count generalizing n with
  | zero => exact (Nat.mod_one n).symm
  | succ count ih =>
    rw [digitsOf_succ, packed_concat, ih, Nat.pow_succ', Nat.mod_mul, Nat.mul_comm, Nat.add_comm]

theorem digitsOf_length (count n : Nat) : (digitsOf bits count n).length = count := by
  simp [digitsOf]

theorem digitsOf_lt {count n digit : Nat} (member : digit ∈ digitsOf bits count n) :
    digit < 2 ^ bits := by
  obtain ⟨i, -, rfl⟩ := List.mem_map.mp member
  exact Nat.mod_lt _ (Nat.two_pow_pos bits)

end Digits

theorem toNat_small (bytes : Bytes) : ∀ digit ∈ bytes.map UInt8.toNat, digit < 2 ^ 8 := by
  intro digit member
  obtain ⟨byte, -, rfl⟩ := List.mem_map.mp member
  exact byte.toNat_lt

theorem bigEndian_packed (bytes : Bytes) :
    bigEndian bytes.length (packed 8 (bytes.map UInt8.toNat)) = bytes := by
  have digits := digitsOf_packed (toNat_small bytes)
  rw [List.length_map] at digits
  have back : ∀ byte : UInt8, UInt8.ofNat byte.toNat = byte := fun byte => UInt8.ofNat_toNat
  rw [bigEndian, digits, List.map_map]
  simp [Function.comp_def, back]

theorem packed_bigEndian (count n : Nat) :
    packed 8 ((bigEndian count n).map UInt8.toNat) = n % (2 ^ 8) ^ count := by
  have bytes : (bigEndian count n).map UInt8.toNat = digitsOf 8 count n := by
    rw [bigEndian, List.map_map]
    conv_rhs => rw [← List.map_id (digitsOf 8 count n)]
    apply List.map_congr_left
    intro digit member
    exact Nat.mod_eq_of_lt (digitsOf_lt member)
  rw [bytes, packed_digitsOf]

/-! ### Groups -/

/-- The digits that are written for bytes. -/
def sextets : Bytes → List Nat
  | [] => []
  | [a] => digitsOf 6 2 (packed 8 [a.toNat] * 2 ^ 4)
  | [a, b] => digitsOf 6 3 (packed 8 [a.toNat, b.toNat] * 2 ^ 2)
  | a :: b :: c :: rest => digitsOf 6 4 (packed 8 [a.toNat, b.toNat, c.toNat]) ++ sextets rest

/-- The bits that the last digit has to spare are zero. -/
def TailClear : List Nat → Prop
  | [] | [_] => True
  | [_, b] => b % 2 ^ 4 = 0
  | [_, _, c] => c % 2 ^ 2 = 0
  | _ :: _ :: _ :: _ :: rest => TailClear rest

section Group

variable (bytesLong digitsLong spare : Nat)

/-- Bytes that are written as digits, with bits to spare, are read back. -/
theorem regroup_bytes (fits : 8 * bytesLong + spare = 6 * digitsLong) (bytes : Bytes)
    (long : bytes.length = bytesLong) :
    bigEndian bytesLong
      (packed 6 (digitsOf 6 digitsLong (packed 8 (bytes.map UInt8.toNat) * 2 ^ spare)) /
        2 ^ spare) = bytes := by
  have small := packed_lt (toNat_small bytes)
  rw [List.length_map, long, ← Nat.pow_mul] at small
  have held : packed 8 (bytes.map UInt8.toNat) * 2 ^ spare < (2 ^ 6) ^ digitsLong := by
    rw [← Nat.pow_mul, ← fits, Nat.pow_add]
    exact Nat.mul_lt_mul_of_pos_right small (Nat.two_pow_pos spare)
  rw [packed_digitsOf, Nat.mod_eq_of_lt held, Nat.mul_div_cancel _ (Nat.two_pow_pos spare), ← long,
    bigEndian_packed]

/-- Digits that are read as bytes are written again if what they have to spare is zero. -/
theorem regroup_digits (fits : 8 * bytesLong + spare = 6 * digitsLong) (digits : List Nat)
    (small : ∀ digit ∈ digits, digit < 2 ^ 6) (long : digits.length = digitsLong) :
    digitsOf 6 digitsLong
      (packed 8 ((bigEndian bytesLong (packed 6 digits / 2 ^ spare)).map UInt8.toNat) * 2 ^ spare) =
        digits ↔ packed 6 digits % 2 ^ spare = 0 := by
  have held := packed_lt small
  rw [long] at held
  have quotient : packed 6 digits / 2 ^ spare < (2 ^ 8) ^ bytesLong := by
    rw [Nat.div_lt_iff_lt_mul (Nat.two_pow_pos spare), ← Nat.pow_mul, ← Nat.pow_add, fits,
      Nat.pow_mul]
    exact held
  rw [packed_bigEndian, Nat.mod_eq_of_lt quotient]
  constructor
  · intro same
    have below := Nat.lt_of_le_of_lt (Nat.div_mul_le_self (packed 6 digits) (2 ^ spare)) held
    have numbers := congrArg (packed 6) same
    rw [packed_digitsOf, Nat.mod_eq_of_lt below] at numbers
    rw [← numbers, Nat.mul_mod_left]
  · intro clear
    rw [Nat.div_mul_cancel (Nat.dvd_of_mod_eq_zero clear), ← long, digitsOf_packed small]

end Group

theorem base64Bytes_append {group : List Nat} (four : group.length = 4) (rest : List Nat) :
    base64Bytes (group ++ rest) =
      (base64Bytes rest).map fun bytes => bigEndian 3 (packed 6 group) ++ bytes := by
  match group, four with
  | [_, _, _, _], _ => rfl

theorem base64Bytes_triple {group : List Nat} (three : group.length = 3) :
    base64Bytes group = some (bigEndian 2 (packed 6 group / 2 ^ 2)) := by
  match group, three with
  | [_, _, _], _ => rfl

theorem base64Bytes_pair {group : List Nat} (two : group.length = 2) :
    base64Bytes group = some (bigEndian 1 (packed 6 group / 2 ^ 4)) := by
  match group, two with
  | [_, _], _ => rfl

theorem sextets_append {group : Bytes} (three : group.length = 3) (rest : Bytes) :
    sextets (group ++ rest) = digitsOf 6 4 (packed 8 (group.map UInt8.toNat)) ++ sextets rest := by
  match group, three with
  | [_, _, _], _ => rfl

theorem sextets_pair {group : Bytes} (two : group.length = 2) :
    sextets group = digitsOf 6 3 (packed 8 (group.map UInt8.toNat) * 2 ^ 2) := by
  match group, two with
  | [_, _], _ => rfl

theorem sextets_single {group : Bytes} (one : group.length = 1) :
    sextets group = digitsOf 6 2 (packed 8 (group.map UInt8.toNat) * 2 ^ 4) := by
  match group, one with
  | [_], _ => rfl

theorem sextets_small (bytes : Bytes) : ∀ digit ∈ sextets bytes, digit < 2 ^ 6 := by
  induction bytes using sextets.induct with
  | case1 => exact List.forall_mem_nil _
  | case2 => exact fun _ => digitsOf_lt
  | case3 => exact fun _ => digitsOf_lt
  | case4 a b c rest ih =>
    intro digit member
    rcases List.mem_append.mp member with first | later
    · exact digitsOf_lt first
    · exact ih digit later

/-- What is written for bytes is read as these bytes. -/
theorem base64Bytes_sextets (bytes : Bytes) : base64Bytes (sextets bytes) = some bytes := by
  induction bytes using sextets.induct with
  | case1 => rfl
  | case2 a =>
    rw [sextets_single rfl, base64Bytes_pair (digitsOf_length 2 _),
      regroup_bytes 1 2 4 rfl [a] rfl]
  | case3 a b =>
    rw [sextets_pair rfl, base64Bytes_triple (digitsOf_length 3 _),
      regroup_bytes 2 3 2 rfl [a, b] rfl]
  | case4 a b c rest ih =>
    have group := regroup_bytes 3 4 0 rfl [a, b, c] rfl
    rw [Nat.pow_zero, Nat.mul_one, Nat.div_one] at group
    have shape : sextets (a :: b :: c :: rest) =
        digitsOf 6 4 (packed 8 ([a, b, c].map UInt8.toNat)) ++ sextets rest := rfl
    rw [shape, base64Bytes_append (digitsOf_length 4 _), ih, Option.map_some, group]
    rfl

/-- Three bytes for four digits, and for the last two or three digits as many as they fill. -/
theorem base64Bytes_length {digits : List Nat} {bytes : Bytes}
    (read : base64Bytes digits = some bytes) : bytes.length = digits.length * 6 / 8 := by
  induction digits using base64Bytes.induct generalizing bytes with
  | case1 =>
    cases read
    rfl
  | case2 => cases read
  | case3 | case4 =>
    cases read
    simp [bigEndian_length]
  | case5 a b c d rest ih =>
    obtain ⟨later, found, rfl⟩ := Option.map_eq_some_iff.mp read
    have before := ih found
    rw [List.length_append, bigEndian_length, before]
    simp only [List.length_cons]
    omega

/-- Digits that are read are written again exactly when the last one has nothing to spare. -/
theorem sextets_iff {digits : List Nat} {bytes : Bytes} (small : ∀ digit ∈ digits, digit < 2 ^ 6)
    (read : base64Bytes digits = some bytes) : sextets bytes = digits ↔ TailClear digits := by
  induction digits using base64Bytes.induct generalizing bytes with
  | case1 =>
    cases read
    exact ⟨fun _ => trivial, fun _ => rfl⟩
  | case2 => cases read
  | case3 a b =>
    cases read
    rw [sextets_single (bigEndian_length 1 _), regroup_digits 1 2 4 rfl [a, b] small rfl,
      TailClear]
    simp only [packed, List.foldl_cons, List.foldl_nil]
    omega
  | case4 a b c =>
    cases read
    rw [sextets_pair (bigEndian_length 2 _), regroup_digits 2 3 2 rfl [a, b, c] small rfl,
      TailClear]
    simp only [packed, List.foldl_cons, List.foldl_nil]
    omega
  | case5 a b c d rest ih =>
    obtain ⟨later, found, rfl⟩ := Option.map_eq_some_iff.mp read
    have group := regroup_digits 3 4 0 rfl [a, b, c, d]
      (fun digit member => small digit (List.mem_append_left rest member)) rfl
    rw [Nat.pow_zero, Nat.mul_one, Nat.div_one, Nat.mod_one] at group
    rw [sextets_append (bigEndian_length 3 _), group.mpr rfl, TailClear,
      ← ih (fun digit member => small digit (List.mem_append_right [a, b, c, d] member)) found]
    exact List.append_right_inj [a, b, c, d]

/-- Where the last digit has two bits to spare, these are zero. -/
theorem tailClear_iff {digits : List Nat} (long : digits.length % 4 = 3) :
    TailClear digits ↔ ∀ last, digits.getLast? = some last → last % 2 ^ 2 = 0 := by
  induction digits using TailClear.induct with
  | case1 => cases long
  | case2 => cases long
  | case3 => cases long
  | case4 a b c => simp [TailClear]
  | case5 a b c d rest ih =>
    have still : rest.length % 4 = 3 := by
      simp only [List.length_cons] at long
      omega
    have last : (a :: b :: c :: d :: rest).getLast? = rest.getLast? := by
      cases rest with
      | nil => cases still
      | cons => simp
    rw [TailClear, ih still, last]

/-! ### Letters -/

/-- The letter of a digit. -/
def letter (digit : Nat) : Char := base64URLAlphabet.getD digit 'A'

theorem alphabet_nodup : base64URLAlphabet.Nodup := by decide

theorem alphabet_length : base64URLAlphabet.length = 2 ^ 6 := rfl

theorem alphabet_plain : ∀ c ∈ base64URLAlphabet, isSpace c = false :=
  List.all_iff_forall_prop.mp (by decide)

theorem letter_mem {digit : Nat} (small : digit < 2 ^ 6) : letter digit ∈ base64URLAlphabet := by
  rw [letter, List.getD_eq_getElem _ _ (alphabet_length ▸ small)]
  exact List.getElem_mem _

theorem idxOf_letter {digit : Nat} (small : digit < 2 ^ 6) :
    base64URLAlphabet.idxOf (letter digit) = digit := by
  rw [letter, List.getD_eq_getElem _ _ (alphabet_length ▸ small)]
  exact alphabet_nodup.idxOf_getElem _ _

theorem letter_idxOf {c : Char} (held : c ∈ base64URLAlphabet) :
    letter (base64URLAlphabet.idxOf c) = c := by
  have inside := List.idxOf_lt_length_of_mem held
  rw [letter, List.getD_eq_getElem _ _ inside]
  exact List.getElem_idxOf inside

/-- The digits of letters. -/
def readLetters (text : List Char) : List Nat := text.map fun c => base64URLAlphabet.idxOf c

theorem readLetters_letters {digits : List Nat} (small : ∀ digit ∈ digits, digit < 2 ^ 6) :
    readLetters (digits.map letter) = digits := by
  rw [readLetters, List.map_map]
  conv_rhs => rw [← List.map_id digits]
  exact List.map_congr_left fun digit member => idxOf_letter (small digit member)

theorem letters_readLetters {text : List Char} (held : ∀ c ∈ text, c ∈ base64URLAlphabet) :
    (readLetters text).map letter = text := by
  rw [readLetters, List.map_map]
  conv_rhs => rw [← List.map_id text]
  exact List.map_congr_left fun c member => letter_idxOf (held c member)

theorem readLetters_small {text : List Char} (held : ∀ c ∈ text, c ∈ base64URLAlphabet) :
    ∀ digit ∈ readLetters text, digit < 2 ^ 6 := by
  intro digit member
  obtain ⟨c, inside, rfl⟩ := List.mem_map.mp member
  exact List.idxOf_lt_length_of_mem (held c inside)

/-- Every line break is skipped. -/
def unbroken (text : List Char) : List Char :=
  text.filter fun c => c ≠ '\n' && c ≠ '\r'

theorem unbroken_eq {text : List Char} (held : ∀ c ∈ text, c ∈ base64URLAlphabet) :
    unbroken text = text := by
  refine List.filter_eq_self.mpr fun c member => ?_
  have plain := alphabet_plain c (held c member)
  by_cases newline : c = '\n'
  · rw [newline] at plain
    cases plain
  by_cases feed : c = '\r'
  · rw [feed] at plain
    cases plain
  · simp [newline, feed]

theorem base64Encode_eq (bytes : Bytes) : base64Encode bytes = (sextets bytes).map letter := by
  induction bytes using base64Encode.induct with
  | case1 => rfl
  | case2 a =>
    have digit : packed 8 [a.toNat] = a.toNat := by simp [packed]
    rw [base64Encode, sextets, digit]
    rfl
  | case3 => rfl
  | case4 a b c rest ih =>
    rw [base64Encode, ih, sextets, List.map_append]
    rfl

theorem base64Encode_alphabet (bytes : Bytes) :
    ∀ c ∈ base64Encode bytes, c ∈ base64URLAlphabet := by
  intro c member
  rw [base64Encode_eq] at member
  obtain ⟨digit, inside, rfl⟩ := List.mem_map.mp member
  exact letter_mem (sextets_small bytes digit inside)

theorem base64Decode_eq {text : List Char} (held : ∀ c ∈ unbroken text, c ∈ base64URLAlphabet) :
    base64Decode text = base64Bytes (readLetters (unbroken text)) := by
  unfold base64Decode
  rw [unbroken] at held ⊢
  rw [indices_eq held]
  rfl

theorem base64Decode_held {text : List Char} {bytes : Bytes}
    (read : base64Decode text = some bytes) : ∀ c ∈ unbroken text, c ∈ base64URLAlphabet := by
  by_contra stray
  unfold base64Decode at read
  rw [unbroken] at stray
  rw [indices_none stray] at read
  cases read

theorem base64Decode_encode (bytes : Bytes) : base64Decode (base64Encode bytes) = some bytes := by
  have held := base64Encode_alphabet bytes
  have whole := unbroken_eq held
  rw [base64Decode_eq (whole.symm ▸ held), whole, base64Encode_eq,
    readLetters_letters (sextets_small bytes), base64Bytes_sextets]

/-- The letters that are written for the bytes of a text are those that were read. -/
theorem base64Encode_unbroken {text : List Char} {bytes : Bytes}
    (read : base64Decode text = some bytes) :
    base64Encode bytes = unbroken text ↔ TailClear (readLetters (unbroken text)) := by
  have held := base64Decode_held read
  rw [base64Decode_eq held] at read
  rw [← sextets_iff (readLetters_small held) read, base64Encode_eq]
  constructor
  · intro same
    rw [← same, readLetters_letters (sextets_small bytes)]
  · intro same
    rw [same, letters_readLetters held]

/-- A text that is read is the one that is written exactly when it has no line break and its last
letter nothing to spare. -/
theorem base64Encode_iff {text : List Char} {bytes : Bytes}
    (read : base64Decode text = some bytes) :
    base64Encode bytes = text ↔ unbroken text = text ∧ TailClear (readLetters text) := by
  constructor
  · intro same
    have whole : unbroken text = text := unbroken_eq (same ▸ base64Encode_alphabet bytes)
    refine ⟨whole, ?_⟩
    have clear := (base64Encode_unbroken read).mp (same.trans whole.symm)
    rw [whole] at clear
    exact clear
  · rintro ⟨whole, clear⟩
    rw [← whole] at clear
    exact ((base64Encode_unbroken read).mpr clear).trans whole

theorem base64Decode_length {text : List Char} {bytes : Bytes}
    (read : base64Decode text = some bytes) :
    bytes.length = (unbroken text).length * 6 / 8 := by
  rw [base64Decode_eq (base64Decode_held read)] at read
  rw [base64Bytes_length read, readLetters, List.length_map]

end HelixKit.Authd
