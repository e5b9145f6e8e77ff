/-
Purpose: How the `encoding/json` package of Go writes a raw message: without white space, and with
  the characters of HTML escaped.
Trusted boundary: none
-/
import HelixKit.Lib.GoJson

namespace HelixKit.GoJson

/-! ## Compact texts -/

/-- Outside of strings, in one (with so many bytes that were written before), or after a backslash
in one. -/
inductive Scope where
  | outside
  | inside (skip : Nat)
  | escaped
deriving Repr, DecidableEq

def isHtml (b : UInt8) : Bool := b = ch '<' || b = ch '>' || b = ch '&'

/-- The last byte of U+2028 or U+2029, when the text starts with it. -/
def lineSeparator (text : Bytes) : Option UInt8 :=
  match text with
  | b :: c :: d :: _ =>
    if b = 0xE2 ∧ c = 0x80 ∧ (d = 0xA8 ∨ d = 0xA9) then some d else none
  | _ => none

/-- `appendCompact`; none where the scanner stops at a control character or an open string. -/
def compactFrom : Scope → Bytes → Option Bytes
  | .outside, [] => some []
  | .inside _, [] => none
  | .escaped, [] => none
  | .outside, b :: rest =>
    if isSpace b then compactFrom .outside rest
    else if b < 0x20 then none
    else if b = ch '"' then (compactFrom (.inside 0) rest).map (b :: ·)
    else (compactFrom .outside rest).map (b :: ·)
  | .inside (skip + 1), _ :: rest => compactFrom (.inside skip) rest
  | .inside 0, b :: rest =>
    if b < 0x20 then none
    else if b = ch '"' then (compactFrom .outside rest).map (b :: ·)
    else if b = ch '\\' then (compactFrom .escaped rest).map (b :: ·)
    else if isHtml b then
      (compactFrom (.inside 0) rest).map
        ([ch '\\', ch 'u', ch '0', ch '0', hexDigit (b.toNat / 16), hexDigit (b.toNat % 16)] ++ ·)
    else
      match lineSeparator (b :: rest) with
      | some last =>
        (compactFrom (.inside 2) rest).map
          (asciiBytes "\\u202" ++ [hexDigit (last.toNat % 16)] ++ ·)
      | none => (compactFrom (.inside 0) rest).map (b :: ·)
  | .escaped, b :: rest =>
    if b < 0x20 then none else (compactFrom (.inside 0) rest).map (b :: ·)

/-- `json.RawMessage`, as it is marshalled; a nil one is null, and one that is no JSON an error. -/
def marshalRaw : Option Bytes → Option Bytes
  | none => some (asciiBytes "null")
  | some text => if (parse text).isSome then compactFrom .outside text else none

/-- A compact text has no control characters. -/
theorem compactFrom_printable {scope : Scope} {text out : Bytes}
    (compact : compactFrom scope text = some out) : ∀ c ∈ out, 0x20 ≤ c := by
  have more : ∀ {front rest : Bytes} {later : Option Bytes}, (∀ c ∈ front, 0x20 ≤ c) →
      (∀ out, later = some out → ∀ c ∈ out, 0x20 ≤ c) → later.map (front ++ ·) = some rest →
        ∀ c ∈ rest, 0x20 ≤ c := by
    intro front rest later first all written
    obtain ⟨out, found, rfl⟩ := Option.map_eq_some_iff.mp written
    intro c member
    rcases List.mem_append.mp member with own | after
    · exact first c own
    · exact all out found c after
  have one : ∀ {b : UInt8} {rest : Bytes} {later : Option Bytes}, ¬ b < 0x20 →
      (∀ out, later = some out → ∀ c ∈ out, 0x20 ≤ c) → later.map (b :: ·) = some rest →
        ∀ c ∈ rest, 0x20 ≤ c := by
    intro b rest later high all written
    refine @more [b] rest later (fun c member => ?_) all written
    rw [List.mem_singleton.mp member]
    exact UInt8.not_lt.mp high
  induction text generalizing scope out with
  | nil =>
    cases scope with
    | outside =>
      cases compact
      simp
    | inside skip => cases compact
    | escaped => cases compact
  | cons b rest ih =>
    have later : ∀ scope out, compactFrom scope rest = some out → ∀ c ∈ out, 0x20 ≤ c :=
      fun _ _ => ih
    cases scope with
    | outside =>
      simp only [compactFrom] at compact
      split at compact
      · exact ih compact
      split at compact
      · cases compact
      rename_i high
      split at compact
      · exact one high (later _) compact
      · exact one high (later _) compact
    | inside skip =>
      cases skip with
      | succ skip => exact ih compact
      | zero =>
        simp only [compactFrom] at compact
        split at compact
        · cases compact
        rename_i high
        split at compact
        · exact one high (later _) compact
        split at compact
        · exact one high (later _) compact
        split at compact
        next html =>
          have which : b = ch '<' ∨ b = ch '>' ∨ b = ch '&' := by
            simpa [isHtml, or_assoc] using html
          refine more ?_ (later _) compact
          intro c member
          rcases which with rfl | rfl | rfl
          · exact printable_of_all (by decide) member
          · exact printable_of_all (by decide) member
          · exact printable_of_all (by decide) member
        · split at compact
          · refine more ?_ (later _) compact
            intro c member
            rcases List.mem_append.mp member with front | digit
            · exact printable_of_all (by decide) front
            · rw [List.mem_singleton.mp digit]
              exact hexDigit_printable (Nat.mod_lt _ (by decide))
          · exact one high (later _) compact
    | escaped =>
      simp only [compactFrom] at compact
      split at compact
      · cases compact
      next high =>
        exact one high (later _) compact

/-! ## Texts that are compact already -/

/-- The text is written as it is, whatever follows. -/
def Tidy (text : Bytes) : Prop :=
  ∀ rest, compactFrom .outside (text ++ rest) = (compactFrom .outside rest).map (text ++ ·)

theorem Tidy.append {text more : Bytes} (tidy : Tidy text) (tidyToo : Tidy more) :
    Tidy (text ++ more) := by
  intro rest
  rw [List.append_assoc, tidy, tidyToo, Option.map_map]
  simp [Function.comp_def]

theorem Tidy.compact {text : Bytes} (tidy : Tidy text) : compactFrom .outside text = some text := by
  have alone := tidy []
  rw [List.append_nil] at alone
  simpa [compactFrom] using alone

/-- A byte between the strings of a compact text. -/
theorem tidy_byte {b : UInt8} (high : 0x20 < b) (other : b ≠ ch '"') : Tidy [b] := by
  intro rest
  have notSpace : isSpace b = false := by
    cases space : isSpace b with
    | false => rfl
    | true =>
      have which : b = 0x20 ∨ b = 0x09 ∨ b = 0x0A ∨ b = 0x0D := by
        simpa [isSpace, or_assoc] using space
      rcases which with rfl | rfl | rfl | rfl <;> exact absurd high (by decide)
  have notLow : ¬ b < 0x20 := UInt8.not_lt.mpr (UInt8.le_of_lt high)
  rw [List.singleton_append, compactFrom, notSpace]
  simp only [Bool.false_eq_true, if_false, notLow, other]
  rfl

/-- A byte that a string has as it is. -/
structure Ordinary (b : UInt8) : Prop where
  printable : 0x20 ≤ b
  ascii : b < 0x80
  quote : b ≠ ch '"'
  backslash : b ≠ ch '\\'
  html : isHtml b = false

theorem ordinary_of_all {text : Bytes}
    (all : text.all (fun b =>
      0x20 ≤ b && b < 0x80 && b ≠ ch '"' && b ≠ ch '\\' && !isHtml b) = true) :
    ∀ b ∈ text, Ordinary b := by
  intro b member
  have own := List.all_eq_true.mp all b member
  simp only [Bool.and_eq_true, decide_eq_true_eq, Bool.not_eq_true'] at own
  obtain ⟨⟨⟨⟨printable, ascii⟩, quote⟩, backslash⟩, html⟩ := own
  exact ⟨printable, ascii, quote, backslash, html⟩

theorem compactFrom_ordinary {text : Bytes} (ordinary : ∀ b ∈ text, Ordinary b) (rest : Bytes) :
    compactFrom (.inside 0) (text ++ rest) = (compactFrom (.inside 0) rest).map (text ++ ·) := by
  induction text with
  | nil => simp
  | cons b text ih =>
    obtain ⟨first, later⟩ := List.forall_mem_cons.mp ordinary
    have notLow : ¬ b < 0x20 := UInt8.not_lt.mpr first.printable
    have apart : b ≠ 0xE2 := by
      rintro rfl
      exact absurd first.ascii (by decide)
    have none_ : lineSeparator (b :: (text ++ rest)) = none := by
      unfold lineSeparator
      split
      next c d e more same =>
        obtain ⟨rfl, -⟩ := List.cons.inj same
        simp [apart]
      · rfl
    rw [List.cons_append, compactFrom]
    simp only [notLow, first.quote, first.backslash, first.html, Bool.false_eq_true, if_false,
      none_, ih later, Option.map_map]
    rfl

theorem quote_ordinary {text : Bytes} (ordinary : ∀ b ∈ text, Ordinary b) :
    quote text = ch '"' :: (text ++ [ch '"']) := by
  have runes_ : (runes text).flatMap Rune.escape = text := by
    unfold runes
    induction text with
    | nil => rfl
    | cons b text ih =>
      obtain ⟨first, later⟩ := List.forall_mem_cons.mp ordinary
      have rune : decodeRune b text = .ascii b := decodeRune_ascii first.ascii text
      have apart : ∀ c : UInt8, c < 0x20 → b ≠ c := by
        rintro c low rfl
        exact absurd first.printable (UInt8.not_le.mpr low)
      have html : ¬ (b < 0x20 ∨ b = ch '<' ∨ b = ch '>' ∨ b = ch '&') := by
        have plain := first.html
        simp only [isHtml, Bool.or_eq_false_iff, decide_eq_false_iff_not] at plain
        have notLow : ¬ b < 0x20 := UInt8.not_lt.mpr first.printable
        tauto
      have escape : (Rune.ascii b).escape = [b] := by
        unfold Rune.escape
        simp only [first.quote, first.backslash, apart 0x08 (by decide), apart 0x0C (by decide),
          apart 0x0A (by decide), apart 0x0D (by decide), apart 0x09 (by decide), html, or_self,
          if_false]
      rw [runesFrom]
      simp only [rune, Rune.more, List.flatMap_cons, escape, ih later]
      rfl
  rw [quote, runes_]

theorem tidy_quote {text : Bytes} (ordinary : ∀ b ∈ text, Ordinary b) : Tidy (quote text) := by
  intro rest
  rw [quote_ordinary ordinary]
  have opening : ch '"' :: (text ++ [ch '"']) ++ rest = ch '"' :: (text ++ ch '"' :: rest) := by
    simp
  have closing : compactFrom (.inside 0) (ch '"' :: rest) =
      (compactFrom .outside rest).map (ch '"' :: ·) := by
    rw [compactFrom]
    simp [show ¬ ch '"' < 0x20 by decide]
  rw [opening, compactFrom, show isSpace (ch '"') = false by decide]
  simp only [Bool.false_eq_true, if_false, show ¬ ch '"' < 0x20 by decide, if_true,
    compactFrom_ordinary ordinary, closing, Option.map_map]
  simp [Function.comp_def]

theorem tidy_member {key text : Bytes} (ordinary : ∀ b ∈ key, Ordinary b) (tidy : Tidy text) :
    Tidy (member key text) := by
  have colon : Tidy [ch ':'] := tidy_byte (by decide) (by decide)
  exact (tidy_quote ordinary).append (colon.append tidy)

/-- An object of compact texts is compact. -/
theorem tidy_objectText {first : Bytes × Bytes} {more : List (Bytes × Bytes)}
    (items : ∀ item ∈ first :: more, (∀ b ∈ item.1, Ordinary b) ∧ Tidy item.2) :
    Tidy (objectText first more) := by
  have open_ : Tidy [ch '{'] := tidy_byte (by decide) (by decide)
  have comma : Tidy [ch ','] := tidy_byte (by decide) (by decide)
  have close : Tidy [ch '}'] := tidy_byte (by decide) (by decide)
  have members : ∀ list : List (Bytes × Bytes),
      (∀ item ∈ list, (∀ b ∈ item.1, Ordinary b) ∧ Tidy item.2) → Tidy (moreMembers list) := by
    intro list
    induction list with
    | nil => exact fun _ rest => by simp [moreMembers]
    | cons item list ih =>
      intro each
      obtain ⟨own, later⟩ := List.forall_mem_cons.mp each
      have shape : moreMembers (item :: list) =
          [ch ','] ++ (member item.1 item.2 ++ moreMembers list) := by
        simp [moreMembers]
      rw [shape]
      exact comma.append ((tidy_member own.1 own.2).append (ih later))
  obtain ⟨own, later⟩ := List.forall_mem_cons.mp items
  have shape : objectText first more =
      [ch '{'] ++ ((member first.1 first.2 ++ moreMembers more) ++ [ch '}']) := rfl
  rw [shape]
  exact open_.append (((tidy_member own.1 own.2).append (members more later)).append close)

/-- The text of a string is read as the string. -/
theorem parse_quote (text : Bytes) : parse (quote text) = some (.string (toValid text)) := by
  have read := value_quote text (2 * (quote text).length + 1) maxNestingDepth []
  rw [List.append_nil] at read
  have fuel : 2 * ((quote text).length + 1) = 2 * (quote text).length + 1 + 1 := by omega
  rw [parse, fuel, read]
  rfl

theorem length_le_objectText {first item : Bytes × Bytes} {more : List (Bytes × Bytes)}
    (inside : item ∈ first :: more) : item.2.length ≤ (objectText first more).length := by
  have inMember : ∀ item : Bytes × Bytes, item.2.length ≤ (member item.1 item.2).length := by
    intro item
    simp only [member, List.length_append, List.length_cons]
    omega
  have whole : (objectText first more).length =
      (member first.1 first.2).length + (moreMembers more).length + 2 := by
    simp [objectText]
    omega
  rw [whole]
  rcases List.mem_cons.mp inside with rfl | later
  · have own := inMember item
    omega
  · have listed : ch ',' :: member item.1 item.2 ∈
        more.map fun item => ch ',' :: member item.1 item.2 := List.mem_map.mpr ⟨item, later, rfl⟩
    have part : (ch ',' :: member item.1 item.2).length ≤ (moreMembers more).length := by
      rw [moreMembers, List.flatMap_def]
      exact (List.sublist_flatten_of_mem listed).length_le
    have own := inMember item
    rw [List.length_cons] at part
    omega

end HelixKit.GoJson
