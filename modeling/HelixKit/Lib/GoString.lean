/-
Purpose: Strings of JSON as the `encoding/json` package of Go writes and reads them, on bytes.
Trusted boundary: none
-/
import Mathlib.Data.List.Basic

namespace HelixKit.GoJson

abbrev Bytes : Type := List UInt8

/-- The byte of an ASCII character. -/
def ch (c : Char) : UInt8 := .ofNat c.toNat

/-- The bytes of an ASCII text. -/
def asciiBytes (text : String) : Bytes := text.toList.map ch

theorem asciiBytes_ofList {text : List Char} : asciiBytes (.ofList text) = text.map ch := by
  rw [asciiBytes, String.toList_ofList]

/-! ## UTF-8 -/

def isTail (b : UInt8) : Bool := 0x80 ≤ b && b ≤ 0xBF

def isTwo (b c : UInt8) : Bool := 0xC2 ≤ b && b ≤ 0xDF && isTail c

def isThree (b c d : UInt8) : Bool :=
  (b = 0xE0 && 0xA0 ≤ c && c ≤ 0xBF || b = 0xED && 0x80 ≤ c && c ≤ 0x9F ||
    (0xE1 ≤ b && b ≤ 0xEC || 0xEE ≤ b && b ≤ 0xEF) && isTail c) && isTail d

def isFour (b c d e : UInt8) : Bool :=
  (b = 0xF0 && 0x90 ≤ c && c ≤ 0xBF || 0xF1 ≤ b && b ≤ 0xF3 && isTail c ||
    b = 0xF4 && 0x80 ≤ c && c ≤ 0x8F) && isTail d && isTail e

inductive Rune where
  | ascii (b : UInt8)
  | wide (bytes : Bytes)
  /-- One byte that is part of no character. -/
  | invalid
deriving Repr, DecidableEq

/-- `utf8.DecodeRune`, where the text is this byte and the rest. -/
def decodeRune (b : UInt8) (rest : Bytes) : Rune :=
  if b < 0x80 then .ascii b
  else
    match rest with
    | [] => .invalid
    | c :: rest =>
      if isTwo b c then .wide [b, c]
      else
        match rest with
        | [] => .invalid
        | d :: rest =>
          if isThree b c d then .wide [b, c, d]
          else
            match rest with
            | [] => .invalid
            | e :: _ => if isFour b c d e then .wide [b, c, d, e] else .invalid

/-- The bytes of a character after its first one. -/
def Rune.more : Rune → Nat
  | .ascii _ | .invalid => 0
  | .wide bytes => bytes.length - 1

/-- The characters from where this many bytes have been passed. -/
def runesFrom : Nat → Bytes → List Rune
  | _, [] => []
  | skip + 1, _ :: rest => runesFrom skip rest
  | 0, b :: rest =>
    let rune := decodeRune b rest
    rune :: runesFrom rune.more rest

def runes (text : Bytes) : List Rune := runesFrom 0 text

/-- U+FFFD -/
def replacement : Bytes := [0xEF, 0xBF, 0xBD]

def Rune.bytes : Rune → Bytes
  | .ascii b => [b]
  | .wide bytes => bytes
  | .invalid => replacement

/-- `utf8.Valid` -/
def Valid (text : Bytes) : Prop := Rune.invalid ∉ runes text

instance (text : Bytes) : Decidable (Valid text) := inferInstanceAs (Decidable (_ ∉ _))

/-- The text with each byte that is part of no character replaced. -/
def toValid (text : Bytes) : Bytes := (runes text).flatMap Rune.bytes

variable {b : UInt8}

theorem decodeRune_ascii (ascii : b < 0x80) (rest : Bytes) :
    decodeRune b rest = .ascii b := by
  unfold decodeRune
  rw [if_pos ascii]

/-- A text of one ASCII byte, over and over. -/
theorem runes_replicate (ascii : b < 0x80) (n : Nat) :
    runes (List.replicate n b) = List.replicate n (.ascii b) := by
  unfold runes
  induction n with
  | zero => rfl
  | succ n ih =>
    rw [List.replicate_succ, List.replicate_succ, runesFrom]
    simp only [decodeRune_ascii ascii, Rune.more, ih]

theorem toValid_replicate (ascii : b < 0x80) (n : Nat) :
    toValid (List.replicate n b) = List.replicate n b := by
  rw [toValid, runes_replicate ascii, List.flatMap_replicate]
  simp [Rune.bytes]

/-- `utf8.AppendRune` -/
def encodeRune (n : Nat) : Bytes :=
  if n < 0x80 then [.ofNat n]
  else if n < 0x800 then [.ofNat (0xC0 + n / 0x40), .ofNat (0x80 + n % 0x40)]
  else if n < 0x10000 then
    [.ofNat (0xE0 + n / 0x1000), .ofNat (0x80 + n / 0x40 % 0x40), .ofNat (0x80 + n % 0x40)]
  else
    [.ofNat (0xF0 + n / 0x40000), .ofNat (0x80 + n / 0x1000 % 0x40),
      .ofNat (0x80 + n / 0x40 % 0x40), .ofNat (0x80 + n % 0x40)]

/-! ## Strings -/

def hexDigit (n : Nat) : UInt8 := .ofNat (if n < 10 then 0x30 + n else 0x57 + n)

def hexValue (b : UInt8) : Option Nat :=
  if ch '0' ≤ b ∧ b ≤ ch '9' then some (b.toNat - 0x30)
  else if ch 'a' ≤ b ∧ b ≤ ch 'f' then some (b.toNat - 0x57)
  else if ch 'A' ≤ b ∧ b ≤ ch 'F' then some (b.toNat - 0x37)
  else none

/-- `appendString` of one character, HTML characters escaped. -/
def Rune.escape : Rune → Bytes
  | .ascii b =>
    if b = ch '"' ∨ b = ch '\\' then [ch '\\', b]
    else if b = 0x08 then [ch '\\', ch 'b']
    else if b = 0x0C then [ch '\\', ch 'f']
    else if b = 0x0A then [ch '\\', ch 'n']
    else if b = 0x0D then [ch '\\', ch 'r']
    else if b = 0x09 then [ch '\\', ch 't']
    else if b < 0x20 ∨ b = ch '<' ∨ b = ch '>' ∨ b = ch '&' then
      [ch '\\', ch 'u', ch '0', ch '0', hexDigit (b.toNat / 16), hexDigit (b.toNat % 16)]
    else [b]
  | .wide bytes =>
    if bytes = [0xE2, 0x80, 0xA8] then asciiBytes "\\u2028"
    else if bytes = [0xE2, 0x80, 0xA9] then asciiBytes "\\u2029"
    else bytes
  | .invalid => asciiBytes "\\ufffd"

def quote (text : Bytes) : Bytes := ch '"' :: ((runes text).flatMap Rune.escape ++ [ch '"'])

def hex4 (a b c d : UInt8) : Option Nat := do
  let a ← hexValue a
  let b ← hexValue b
  let c ← hexValue c
  let d ← hexValue d
  return ((a * 16 + b) * 16 + c) * 16 + d

/-- The escapes of one character after the backslash. -/
def simpleEscape (b : UInt8) : Option UInt8 :=
  if b = ch '"' ∨ b = ch '\\' ∨ b = ch '/' then some b
  else if b = ch 'b' then some 0x08
  else if b = ch 'f' then some 0x0C
  else if b = ch 'n' then some 0x0A
  else if b = ch 'r' then some 0x0D
  else if b = ch 't' then some 0x09
  else none

/-- The `\u` escape whose four digits stand here, or the pair of them that is one character, and how
many bytes it has. -/
def unicodeEscape (text : Bytes) : Option (Bytes × Nat) :=
  match text with
  | a :: b :: c :: d :: rest =>
    match hex4 a b c d with
    | none => none
    | some unit =>
      if unit < 0xD800 ∨ 0xE000 ≤ unit then some (encodeRune unit, 6)
      else
        match rest with
        | s :: u :: e :: f :: g :: h :: _ =>
          match if s = ch '\\' ∧ u = ch 'u' then hex4 e f g h else none with
          | some low =>
            if unit < 0xDC00 ∧ 0xDC00 ≤ low ∧ low < 0xE000 then
              some (encodeRune ((unit - 0xD800) * 0x400 + (low - 0xDC00) + 0x10000), 12)
            else some (replacement, 6)
          | none => some (replacement, 6)
        | _ => some (replacement, 6)
  | _ => none

/-- One character of a string, where the text is this byte and the rest, and how many bytes it
has. -/
def character (b : UInt8) (rest : Bytes) : Option (Bytes × Nat) :=
  if b = ch '\\' then
    match rest with
    | [] => none
    | e :: rest =>
      if e = ch 'u' then unicodeEscape rest
      else (simpleEscape e).map fun b => ([b], 2)
  else if b < 0x20 then none
  else some ([b], 1)

/-- The string up to its closing quote with its escapes resolved, and what follows, from where this
many bytes have been passed. -/
def unescapeFrom : Nat → Bytes → Option (Bytes × Bytes)
  | _, [] => none
  | skip + 1, _ :: rest => unescapeFrom skip rest
  | 0, b :: rest =>
    if b = ch '"' then some ([], rest)
    else
      match character b rest with
      | none => none
      | some (bytes, size) =>
        (unescapeFrom (size - 1) rest).map fun found => (bytes ++ found.1, found.2)

/-- The string whose opening quote has been read. -/
def unquote (text : Bytes) : Option (Bytes × Bytes) :=
  (unescapeFrom 0 text).map fun found => (toValid found.1, found.2)

/-! ## What is written is read -/

/-- A character other than `invalid` is the bytes that stand there. -/
theorem decodeRune_bytes {rest : Bytes} (valid : decodeRune b rest ≠ .invalid) :
    ∃ after, b :: rest = (decodeRune b rest).bytes ++ after ∧
      rest.drop (decodeRune b rest).more = after := by
  unfold decodeRune at valid ⊢
  split
  · exact ⟨rest, rfl, rfl⟩
  rename_i wide
  rw [if_neg wide] at valid
  cases rest with
  | nil => exact absurd rfl valid
  | cons c rest =>
    dsimp only at valid ⊢
    split
    · exact ⟨rest, rfl, rfl⟩
    rename_i notTwo
    rw [if_neg notTwo] at valid
    cases rest with
    | nil => exact absurd rfl valid
    | cons d rest =>
      dsimp only at valid ⊢
      split
      · exact ⟨rest, rfl, rfl⟩
      rename_i notThree
      rw [if_neg notThree] at valid
      cases rest with
      | nil => exact absurd rfl valid
      | cons e rest =>
        dsimp only at valid ⊢
        split
        · exact ⟨rest, rfl, rfl⟩
        rename_i notFour
        rw [if_neg notFour] at valid
        exact absurd rfl valid

/-- The bytes of a character are ASCII just when it is one byte. -/
def Rune.Apart : Rune → Prop
  | .ascii b => b < 0x80
  | .wide bytes => ∀ b ∈ bytes, 0x80 ≤ b
  | .invalid => True

theorem wide_of_isTail (tail : isTail b = true) : 0x80 ≤ b := by
  simp only [isTail, Bool.and_eq_true, decide_eq_true_eq] at tail
  exact tail.1

variable {c : UInt8}

theorem wide_of_isTwo (two : isTwo b c = true) : 0x80 ≤ b ∧ 0x80 ≤ c := by
  simp only [isTwo, Bool.and_eq_true, decide_eq_true_eq] at two
  exact ⟨UInt8.le_trans (by decide) two.1.1, wide_of_isTail two.2⟩

theorem wide_of_isThree {d : UInt8} (three : isThree b c d = true) :
    0x80 ≤ b ∧ 0x80 ≤ c ∧ 0x80 ≤ d := by
  simp only [isThree, Bool.and_eq_true, Bool.or_eq_true, decide_eq_true_eq] at three
  obtain ⟨front, tail⟩ := three
  refine ⟨?_, ?_, wide_of_isTail tail⟩
  · rcases front with (⟨⟨rfl, -⟩, -⟩ | ⟨⟨rfl, -⟩, -⟩) | ⟨⟨low, -⟩ | ⟨low, -⟩, -⟩
    · decide
    · decide
    · exact UInt8.le_trans (by decide) low
    · exact UInt8.le_trans (by decide) low
  · rcases front with (⟨⟨-, low⟩, -⟩ | ⟨⟨-, low⟩, -⟩) | ⟨-, tail⟩
    · exact UInt8.le_trans (by decide) low
    · exact low
    · exact wide_of_isTail tail

theorem wide_of_isFour {d e : UInt8} (four : isFour b c d e = true) :
    0x80 ≤ b ∧ 0x80 ≤ c ∧ 0x80 ≤ d ∧ 0x80 ≤ e := by
  simp only [isFour, Bool.and_eq_true, Bool.or_eq_true, decide_eq_true_eq] at four
  obtain ⟨⟨front, tail⟩, last⟩ := four
  refine ⟨?_, ?_, wide_of_isTail tail, wide_of_isTail last⟩
  · rcases front with (⟨⟨rfl, -⟩, -⟩ | ⟨⟨low, -⟩, -⟩) | ⟨⟨rfl, -⟩, -⟩
    · decide
    · exact UInt8.le_trans (by decide) low
    · decide
  · rcases front with (⟨⟨-, low⟩, -⟩ | ⟨-, tail⟩) | ⟨⟨-, low⟩, -⟩
    · exact UInt8.le_trans (by decide) low
    · exact wide_of_isTail tail
    · exact low

theorem apart_decodeRune (b : UInt8) (rest : Bytes) : (decodeRune b rest).Apart := by
  unfold decodeRune
  split
  · assumption
  split
  · trivial
  split
  next two =>
    simpa [Rune.Apart] using wide_of_isTwo two
  split
  · trivial
  split
  next three =>
    simpa [Rune.Apart] using wide_of_isThree three
  split
  · trivial
  split
  next four =>
    simpa [Rune.Apart] using wide_of_isFour four
  · trivial

theorem flatMap_runesFrom {skip : Nat} {text : Bytes}
    (valid : Rune.invalid ∉ runesFrom skip text) :
    (runesFrom skip text).flatMap Rune.bytes = text.drop skip := by
  induction text generalizing skip with
  | nil => simp [runesFrom]
  | cons b rest ih =>
    cases skip with
    | succ skip => exact ih valid
    | zero =>
      have first : decodeRune b rest ≠ .invalid := fun same =>
        valid (by rw [runesFrom, same]; exact List.mem_cons_self)
      have later : Rune.invalid ∉ runesFrom (decodeRune b rest).more rest := fun member =>
        valid (List.mem_cons_of_mem _ member)
      obtain ⟨after, whole, left⟩ := decodeRune_bytes first
      rw [runesFrom, List.flatMap_cons, ih later, left, List.drop_zero, whole]

theorem toValid_of_valid {text : Bytes} (valid : Valid text) : toValid text = text :=
  flatMap_runesFrom valid

variable {rune : Rune}

theorem apart_of_mem_runesFrom {skip : Nat} {text : Bytes}
    (member : rune ∈ runesFrom skip text) : rune.Apart := by
  induction text generalizing skip with
  | nil => simp [runesFrom] at member
  | cons b rest ih =>
    cases skip with
    | succ skip => exact ih member
    | zero =>
      rcases List.mem_cons.mp member with rfl | later
      · exact apart_decodeRune b rest
      · exact ih later

def prepend (bytes : Bytes) (found : Bytes × Bytes) : Bytes × Bytes := (bytes ++ found.1, found.2)

theorem unescapeFrom_skip (front rest : Bytes) :
    unescapeFrom front.length (front ++ rest) = unescapeFrom 0 rest := by
  induction front with
  | nil => rfl
  | cons b front ih => exact ih

/-- A character that is read as these bytes, where it stands alone. -/
theorem unescapeFrom_character {more rest bytes : Bytes} (open_ : b ≠ ch '"')
    (read : character b (more ++ rest) = some (bytes, more.length + 1)) :
    unescapeFrom 0 (b :: more ++ rest) = (unescapeFrom 0 rest).map (prepend bytes) := by
  rw [List.cons_append, unescapeFrom, if_neg open_, read]
  simp only [Nat.add_sub_cancel, unescapeFrom_skip]
  rfl

theorem hexValue_hexDigit {n : Nat} (digit : n < 16) : hexValue (hexDigit n) = some n := by
  have all : ∀ n : Fin 16, hexValue (hexDigit n) = some n.val := by decide
  exact all ⟨n, digit⟩

theorem character_ascii (rest : Bytes) (quote : b ≠ ch '"') (slash : b ≠ ch '\\')
    (printable : ¬ b < 0x20) : unescapeFrom 0 (b :: rest) = (unescapeFrom 0 rest).map (prepend [b]) := by
  have read : character b ([] ++ rest) = some ([b], ([] : Bytes).length + 1) := by
    simp [character, slash, printable]
  exact unescapeFrom_character quote read

/-- Bytes that are not ASCII are read as they are. -/
theorem unescapeFrom_wide {bytes : Bytes} (wide : ∀ b ∈ bytes, 0x80 ≤ b) (rest : Bytes) :
    unescapeFrom 0 (bytes ++ rest) = (unescapeFrom 0 rest).map (prepend bytes) := by
  induction bytes with
  | nil =>
    rw [List.nil_append]
    cases unescapeFrom 0 rest <;> rfl
  | cons b bytes ih =>
    have high : 0x80 ≤ b := wide b List.mem_cons_self
    have apart : ∀ c : UInt8, c < 0x80 → b ≠ c := by
      rintro c low rfl
      exact absurd low (UInt8.not_lt.mpr high)
    have printable : ¬ b < 0x20 := UInt8.not_lt.mpr (UInt8.le_trans (by decide) high)
    rw [List.cons_append, character_ascii _ (apart _ (by decide)) (apart _ (by decide)) printable,
      ih fun c member => wide c (List.mem_cons_of_mem b member), Option.map_map]
    rfl

/-- An escape of two bytes. -/
theorem unescapeFrom_simple {e : UInt8} (rest : Bytes) (notU : e ≠ ch 'u')
    (simple : simpleEscape e = some b) :
    unescapeFrom 0 (ch '\\' :: e :: rest) = (unescapeFrom 0 rest).map (prepend [b]) := by
  have read : character (ch '\\') ([e] ++ rest) = some ([b], [e].length + 1) := by
    simp [character, notU, simple]
  exact unescapeFrom_character (by decide) read

/-- An escape of six bytes. -/
theorem unescapeFrom_unicode {a d : UInt8} (unit : Nat) (rest : Bytes)
    (hex : hex4 a b c d = some unit) (single : unit < 0xD800 ∨ 0xE000 ≤ unit) :
    unescapeFrom 0 (ch '\\' :: ch 'u' :: a :: b :: c :: d :: rest) =
      (unescapeFrom 0 rest).map (prepend (encodeRune unit)) := by
  have read : character (ch '\\') ([ch 'u', a, b, c, d] ++ rest) =
      some (encodeRune unit, [ch 'u', a, b, c, d].length + 1) := by
    simp [character, unicodeEscape, hex, single]
  exact unescapeFrom_character (by decide) read

theorem unescapeFrom_escape_ascii (low : b < 0x80) (rest : Bytes) :
    unescapeFrom 0 ((Rune.ascii b).escape ++ rest) = (unescapeFrom 0 rest).map (prepend [b]) := by
  unfold Rune.escape
  dsimp only
  split
  next special =>
    rcases special with rfl | rfl
    · exact unescapeFrom_simple rest (by decide) (by decide)
    · exact unescapeFrom_simple rest (by decide) (by decide)
  rename_i plain
  -- the five characters that have a short escape
  iterate 5
    split
    next same =>
      subst same
      exact unescapeFrom_simple rest (by decide) (by decide)
  split
  · have small : b.toNat < 0x80 := low
    have hex : hex4 (ch '0') (ch '0') (hexDigit (b.toNat / 16))
        (hexDigit (b.toNat % 16)) = some b.toNat := by
      have zero : hexValue (ch '0') = some 0 := by decide
      simp only [hex4, zero, hexValue_hexDigit (show b.toNat / 16 < 16 by omega),
        hexValue_hexDigit (Nat.mod_lt b.toNat (by decide : 0 < 16)), Option.bind_eq_bind,
        Option.bind_some, Option.pure_def]
      exact congrArg some (by omega)
    have one : encodeRune b.toNat = [b] := by
      simp [encodeRune, small]
    rw [← one]
    exact unescapeFrom_unicode _ rest hex (by omega)
  next printable =>
    have parts : b ≠ ch '"' ∧ b ≠ ch '\\' ∧ ¬ b < 0x20 := by
      refine ⟨fun same => plain (.inl same), fun same => plain (.inr same),
        fun control => printable (.inl control)⟩
    exact character_ascii rest parts.1 parts.2.1 parts.2.2

theorem unescapeFrom_escape (apart : rune.Apart) (rest : Bytes) :
    unescapeFrom 0 (rune.escape ++ rest) = (unescapeFrom 0 rest).map (prepend rune.bytes) := by
  cases rune with
  | ascii b => exact unescapeFrom_escape_ascii apart rest
  | invalid =>
    have written : Rune.invalid.escape = [ch '\\', ch 'u', ch 'f', ch 'f', ch 'f', ch 'd'] := by
      decide
    rw [written]
    exact unescapeFrom_unicode 0xFFFD rest (by decide) (by decide)
  | wide bytes =>
    unfold Rune.escape
    dsimp only
    split
    next same =>
      subst same
      have written : asciiBytes "\\u2028" = [ch '\\', ch 'u', ch '2', ch '0', ch '2', ch '8'] := by
        decide
      rw [written]
      exact unescapeFrom_unicode 0x2028 rest (by decide) (by decide)
    split
    next same =>
      subst same
      have written : asciiBytes "\\u2029" = [ch '\\', ch 'u', ch '2', ch '0', ch '2', ch '9'] := by
        decide
      rw [written]
      exact unescapeFrom_unicode 0x2029 rest (by decide) (by decide)
    · exact unescapeFrom_wide apart rest

/-- The bytes of the character are read as a character again, whatever follows. -/
def Rune.Solid (rune : Rune) : Prop :=
  ∀ rest, ∃ b more, rune.bytes = b :: more ∧ decodeRune b (more ++ rest) ≠ .invalid ∧
    (decodeRune b (more ++ rest)).more = more.length

theorem solid_decodeRune (b : UInt8) (rest : Bytes) : (decodeRune b rest).Solid := by
  have replaced : Rune.invalid.Solid := by
    intro more
    refine ⟨0xEF, [0xBF, 0xBD], rfl, ?_, ?_⟩ <;> simp [decodeRune, isTwo, isThree, isTail, Rune.more]
  unfold decodeRune
  split
  next low =>
    intro more
    exact ⟨b, [], rfl, by simp [decodeRune, low], by simp [decodeRune, low, Rune.more]⟩
  rename_i high
  cases rest with
  | nil => exact replaced
  | cons c rest =>
    dsimp only
    split
    next two =>
      intro more
      exact ⟨b, [c], rfl, by simp [decodeRune, high, two],
        by simp [decodeRune, high, two, Rune.more]⟩
    rename_i notTwo
    cases rest with
    | nil => exact replaced
    | cons d rest =>
      dsimp only
      split
      next three =>
        intro more
        exact ⟨b, [c, d], rfl, by simp [decodeRune, high, notTwo, three],
          by simp [decodeRune, high, notTwo, three, Rune.more]⟩
      rename_i notThree
      cases rest with
      | nil => exact replaced
      | cons e rest =>
        dsimp only
        split
        next four =>
          intro more
          exact ⟨b, [c, d, e], rfl, by simp [decodeRune, high, notTwo, notThree, four],
            by simp [decodeRune, high, notTwo, notThree, four, Rune.more]⟩
        · exact replaced

theorem solid_of_mem_runesFrom {skip : Nat} {text : Bytes}
    (member : rune ∈ runesFrom skip text) : rune.Solid := by
  induction text generalizing skip with
  | nil => simp [runesFrom] at member
  | cons b rest ih =>
    cases skip with
    | succ skip => exact ih member
    | zero =>
      rcases List.mem_cons.mp member with rfl | later
      · exact solid_decodeRune b rest
      · exact ih later

theorem runesFrom_skip (front rest : Bytes) :
    runesFrom front.length (front ++ rest) = runesFrom 0 rest := by
  induction front with
  | nil => rfl
  | cons b front ih => exact ih

/-- A text whose bytes were replaced is valid. -/
theorem valid_toValid (text : Bytes) : Valid (toValid text) := by
  have each : ∀ list : List Rune, (∀ rune ∈ list, rune.Solid) →
      Rune.invalid ∉ runesFrom 0 (list.flatMap Rune.bytes) := by
    intro list solid
    induction list with
    | nil => simp [runesFrom]
    | cons rune list ih =>
      obtain ⟨b, more, bytes, valid, size⟩ :=
        solid rune List.mem_cons_self (list.flatMap Rune.bytes)
      have later := ih fun other member => solid other (List.mem_cons_of_mem rune member)
      rw [List.flatMap_cons, bytes, List.cons_append, runesFrom, size, runesFrom_skip]
      intro member
      rcases List.mem_cons.mp member with same | inLater
      · exact valid same.symm
      · exact later inLater
  exact each (runes text) fun rune member => solid_of_mem_runesFrom member

/-- A string is read as it was written, with its bytes replaced that are no character. -/
theorem unquote_quote (text rest : Bytes) :
    unquote (((runes text).flatMap Rune.escape ++ [ch '"']) ++ rest) = some (toValid text, rest) := by
  have each : ∀ list : List Rune, (∀ rune ∈ list, rune.Apart) →
      unescapeFrom 0 ((list.flatMap Rune.escape ++ [ch '"']) ++ rest) =
        some (list.flatMap Rune.bytes, rest) := by
    intro list apart
    induction list with
    | nil => rfl
    | cons rune list ih =>
      rw [List.flatMap_cons, List.append_assoc, List.append_assoc,
        unescapeFrom_escape (apart rune List.mem_cons_self), ← List.append_assoc,
        ih fun other member => apart other (List.mem_cons_of_mem rune member)]
      rfl
  have whole : (runes text).flatMap Rune.bytes = toValid text := rfl
  rw [unquote, each (runes text) fun rune member => apart_of_mem_runesFrom member, whole,
    Option.map_some, toValid_of_valid (valid_toValid text)]

/-! ## What is written has no control characters -/

theorem hexDigit_printable {n : Nat} (digit : n < 16) : 0x20 ≤ hexDigit n := by
  have all : ∀ n : Fin 16, 0x20 ≤ hexDigit n.val := by decide
  exact all ⟨n, digit⟩

theorem printable_of_all {bytes : Bytes} (all : bytes.all (fun b => 0x20 ≤ b) = true)
    (member : c ∈ bytes) : 0x20 ≤ c :=
  of_decide_eq_true (List.all_eq_true.mp all c member)

theorem escape_ascii_printable (low : b < 0x80) (member : c ∈ (Rune.ascii b).escape) :
    0x20 ≤ c := by
  unfold Rune.escape at member
  dsimp only at member
  split at member
  next special =>
    simp only [List.mem_cons, List.not_mem_nil, or_false] at member
    rcases member with rfl | rfl
    · decide
    · rcases special with rfl | rfl <;> decide
  iterate 5
    split at member
    · exact printable_of_all (by decide) member
  split at member
  · have small : b.toNat < 0x80 := low
    simp only [List.mem_cons, List.not_mem_nil, or_false] at member
    rcases member with rfl | rfl | rfl | rfl | rfl | rfl
    · decide
    · decide
    · decide
    · decide
    · exact hexDigit_printable (by omega)
    · exact hexDigit_printable (Nat.mod_lt _ (by decide))
  next printable =>
    rw [List.mem_singleton.mp member]
    exact UInt8.not_lt.mp fun control => printable (.inl control)

theorem escape_printable (apart : rune.Apart) (member : c ∈ rune.escape) :
    0x20 ≤ c := by
  cases rune with
  | ascii b => exact escape_ascii_printable apart member
  | invalid =>
    exact printable_of_all (by decide) member
  | wide bytes =>
    unfold Rune.escape at member
    dsimp only at member
    split at member
    · exact printable_of_all (by decide) member
    split at member
    · exact printable_of_all (by decide) member
    · exact UInt8.le_trans (by decide) (apart c member)

theorem quote_printable {text : Bytes} (member : c ∈ quote text) : 0x20 ≤ c := by
  rcases List.mem_cons.mp member with rfl | inside
  · decide
  · rcases List.mem_append.mp inside with escaped | last
    · obtain ⟨rune, inRunes, inEscape⟩ := List.mem_flatMap.mp escaped
      exact escape_printable (apart_of_mem_runesFrom inRunes) inEscape
    · rw [List.mem_singleton.mp last]
      decide

end HelixKit.GoJson
