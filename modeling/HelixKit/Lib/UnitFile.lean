/-
Purpose: The lines of a systemd unit file: comments, continuations, sections and directives, and
  when the lines that were written for directives are read back as these.
Trusted boundary: none
-/
import HelixKit.Lib.UnitWords
import Mathlib.Data.List.TakeWhile

namespace HelixKit.UnitFile

open UnitWords

/-! ## Lines -/

/-- The text without the blanks around it. -/
def strip (text : Text) : Text := (text.dropWhile isSpace).rdropWhile isSpace

def isComment (line : Text) : Bool :=
  (line.dropWhile isSpace).head?.any fun c => c = '#' || c = ';'

/-- The line ends with a backslash that no other escapes. -/
def endsEscaped (line : Text) : Bool := line.foldl (fun escaped c => !escaped && c = '\\') false

/-- The lines with the continued ones put together; comments in between are left out. -/
def logical : Option Text → List Text → List Text
  | pending, [] => pending.toList
  | pending, line :: rest =>
    if isComment line then logical pending rest
    else
      let whole := pending.getD [] ++ line
      if endsEscaped whole then logical (some (whole.dropLast ++ [' '])) rest
      else whole :: logical none rest

inductive Item where
  | section_ (name : Text)
  | directive (key value : Text)
deriving Repr, DecidableEq

/-- What a line is, if anything. -/
def item (line : Text) : Option Item :=
  match strip line with
  | '[' :: rest => if rest.getLast? = some ']' then some (.section_ rest.dropLast) else none
  | bare =>
    if '=' ∈ bare then
      some (.directive (strip (bare.takeWhile (· ≠ '=')))
        (strip (bare.dropWhile (· ≠ '=')).tail))
    else none

/-- The sections and directives of some lines. -/
def itemsOf (lines : List Text) : List Item := (logical none lines).filterMap item

/-- The sections and directives of a unit file. -/
def items (text : Text) : List Item := itemsOf (text.splitOn '\n')

/-- The values of a key, in the sections of a name. -/
def valuesOf (name key : Text) : Option Text → List Item → List Text
  | _, [] => []
  | _, .section_ other :: rest => valuesOf name key (some other) rest
  | here, .directive other value :: rest =>
    (if here = some name ∧ other = key then [value] else []) ++ valuesOf name key here rest

/-- What the values of a key add up to; an empty value drops those before it. -/
def collect {Entry : Type} (read : Text → List Entry) (values : List Text) : List Entry :=
  values.foldl (fun before value => if value = [] then [] else before ++ read value) []

/-! ## Stripping -/

/-- A text of blanks. -/
def Blank (text : Text) : Prop := ∀ c ∈ text, isSpace c = true

theorem Blank.append {text more : Text} (blank : Blank text) (too : Blank more) :
    Blank (text ++ more) := by
  intro c member
  rcases List.mem_append.mp member with here | there
  · exact blank c here
  · exact too c there

theorem length_strip (text : Text) : (strip text).length ≤ text.length := by
  have first := (List.rdropWhile_prefix isSpace (l := text.dropWhile isSpace)).length_le
  exact first.trans (List.dropWhile_suffix isSpace).length_le

/-- A text without blanks at its ends. -/
structure Tight (text : Text) : Prop where
  head : text.head?.any isSpace = false
  last : text.getLast?.any isSpace = false

theorem rdropWhile_append_blank {text blank : Text} (blank_ : Blank blank) :
    (text ++ blank).rdropWhile isSpace = text.rdropWhile isSpace := by
  have reversed : Blank blank.reverse := fun c member => blank_ c (List.mem_reverse.mp member)
  unfold List.rdropWhile
  rw [List.reverse_append, List.dropWhile_append_of_pos reversed]

theorem rdropWhile_tight {text : Text} (tight : text.getLast?.any isSpace = false) :
    text.rdropWhile isSpace = text := by
  rw [List.rdropWhile_eq_self_iff]
  intro some_ space
  rw [List.getLast?_eq_some_getLast some_] at tight
  simp [space] at tight

theorem dropWhile_tight {text : Text} (tight : text.head?.any isSpace = false) :
    text.dropWhile isSpace = text := by
  cases text with
  | nil => rfl
  | cons c rest =>
    have other : isSpace c = false := by simpa using tight
    simp [other]

theorem strip_eq {lead core trail : Text} (leading : Blank lead) (trailing : Blank trail)
    (tight : Tight core) : strip (lead ++ (core ++ trail)) = core := by
  unfold strip
  rw [List.dropWhile_append_of_pos leading]
  cases core with
  | nil =>
    rw [List.nil_append, List.dropWhile_eq_nil_iff.mpr trailing]
    rfl
  | cons c rest =>
    have other : isSpace c = false := by simpa using tight.head
    have kept : ((c :: rest) ++ trail).dropWhile isSpace = (c :: rest) ++ trail := by
      simp [other]
    rw [kept, rdropWhile_append_blank trailing, rdropWhile_tight tight.last]

theorem strip_tight {text : Text} (tight : Tight text) : strip text = text := by
  have whole := @strip_eq [] text [] (by simp [Blank]) (by simp [Blank]) tight
  simpa using whole

theorem tight_strip (text : Text) : Tight (strip text) where
  head := by
    have dropped := List.head?_dropWhile_not isSpace text
    obtain ⟨rest, whole⟩ := List.rdropWhile_prefix isSpace (l := text.dropWhile isSpace)
    have stripped : (text.dropWhile isSpace).rdropWhile isSpace = strip text := rfl
    rw [← whole, stripped] at dropped
    cases first : strip text with
    | nil => rfl
    | cons c tail =>
      rw [first] at dropped
      simpa using dropped
  last := by
    by_cases none_ : strip text = []
    · rw [none_]
      rfl
    · have last := List.rdropWhile_last_not isSpace (text.dropWhile isSpace) none_
      rw [List.getLast?_eq_some_getLast none_]
      exact Bool.eq_false_iff.mpr last

theorem exists_strip (text : Text) : ∃ lead trail, Blank lead ∧ Blank trail ∧
    text = lead ++ (strip text ++ trail) := by
  refine ⟨text.takeWhile isSpace, (text.dropWhile isSpace).rtakeWhile isSpace, ?_, ?_, ?_⟩
  · exact fun c member => List.mem_takeWhile_imp member
  · exact fun c member => List.mem_rtakeWhile_imp member
  · rw [strip, List.rdropWhile_append_rtakeWhile, List.takeWhile_append_dropWhile]

/-- Blanks at the end do not matter. -/
theorem strip_append_blank (text : Text) {blank : Text} (blank_ : Blank blank) :
    strip (text ++ blank) = strip text := by
  obtain ⟨lead, trail, leading, trailing, whole⟩ := exists_strip text
  conv_lhs => rw [whole, List.append_assoc, List.append_assoc]
  exact strip_eq leading (trailing.append blank_) (tight_strip text)

theorem strip_blank {text : Text} (blank : Blank text) : strip text = [] := by
  rw [strip, List.dropWhile_eq_nil_iff.mpr blank]
  rfl

theorem strip_blank_append {blank : Text} (blank_ : Blank blank) (text : Text) :
    strip (blank ++ text) = strip text := by
  rw [strip, List.dropWhile_append_of_pos blank_]
  rfl

theorem mem_strip {text : Text} {c : Char} (member : c ∈ text) (other : isSpace c = false) :
    c ∈ strip text := by
  obtain ⟨lead, trail, leading, trailing, whole⟩ := exists_strip text
  rw [whole, List.mem_append, List.mem_append] at member
  rcases member with inLead | inStrip | inTrail
  · rw [leading c inLead] at other
    cases other
  · exact inStrip
  · rw [trailing c inTrail] at other
    cases other

theorem strip_subset (text : Text) : ∀ c ∈ strip text, c ∈ text := by
  intro c member
  obtain ⟨lead, trail, -, -, whole⟩ := exists_strip text
  rw [whole]
  exact List.mem_append_right _ (List.mem_append_left _ member)

theorem last_rdropWhile (text : Text) : (text.rdropWhile isSpace).getLast?.any isSpace = false := by
  by_cases none_ : text.rdropWhile isSpace = []
  · rw [none_]
    rfl
  · have last := List.rdropWhile_last_not isSpace text none_
    rw [List.getLast?_eq_some_getLast none_]
    exact Bool.eq_false_iff.mpr last

/-- Nothing is stripped up to a character that is no blank. -/
theorem rdropWhile_append_cons {c : Char} (other : isSpace c = false) (before rest : Text) :
    (before ++ c :: rest).rdropWhile isSpace = before ++ c :: rest.rdropWhile isSpace := by
  have trailing : Blank (rest.rtakeWhile isSpace) :=
    fun d member => List.mem_rtakeWhile_imp member
  have whole : before ++ c :: rest =
      (before ++ c :: rest.rdropWhile isSpace) ++ rest.rtakeWhile isSpace := by
    rw [List.append_assoc, List.cons_append, List.rdropWhile_append_rtakeWhile]
  rw [whole, rdropWhile_append_blank trailing, rdropWhile_tight]
  have last := last_rdropWhile rest
  cases kept : rest.rdropWhile isSpace with
  | nil => simp [other]
  | cons d tail =>
    have ends := List.getLast?_eq_some_getLast (List.cons_ne_nil d tail)
    rw [kept, ends] at last
    simpa [ends] using last

theorem tight_plain {word : Text} (plain : Plain word) : Tight word where
  head := by
    obtain ⟨c, rest, rfl⟩ := List.exists_cons_of_ne_nil plain.nonempty
    simpa using (ordinary_iff.mp (plain.chars c List.mem_cons_self)).1
  last := by
    rw [List.getLast?_eq_some_getLast plain.nonempty]
    exact (ordinary_iff.mp (plain.chars _ (List.getLast_mem plain.nonempty))).1

/-- Plain words with spaces between them begin and end without a blank. -/
theorem tight_join {first : Text} {rest : List Text} (plain : ∀ word ∈ first :: rest, Plain word) :
    Tight (List.intercalate [' '] (first :: rest)) := by
  induction rest generalizing first with
  | nil => simpa using tight_plain (plain first List.mem_cons_self)
  | cons second rest ih =>
    have later := ih fun word member => plain word (List.mem_cons_of_mem first member)
    have shape : List.intercalate [' '] (first :: second :: rest) =
        first ++ ' ' :: List.intercalate [' '] (second :: rest) := by
      simp [List.intercalate, List.intersperse]
    have some_ : List.intercalate [' '] (second :: rest) ≠ [] := by
      intro none_
      have length := length_join second rest
      have word := List.length_pos_iff.mpr
        (plain second (List.mem_cons_of_mem first List.mem_cons_self)).nonempty
      rw [none_, cost_cons] at length
      simp only [List.length_nil] at length
      omega
    obtain ⟨c, tail, joined⟩ := List.exists_cons_of_ne_nil some_
    have head := (tight_plain (plain first List.mem_cons_self)).head
    have last := later.last
    rw [shape]
    rw [joined] at last ⊢
    constructor
    · obtain ⟨d, word, rfl⟩ :=
        List.exists_cons_of_ne_nil (plain first List.mem_cons_self).nonempty
      simpa using head
    · rw [List.getLast?_append, List.getLast?_cons_cons,
        List.getLast?_eq_some_getLast (List.cons_ne_nil c tail), Option.some_or]
      rwa [List.getLast?_eq_some_getLast (List.cons_ne_nil c tail)] at last

/-- The characters that are no blanks are those of the stripped text. -/
theorem countP_strip (text : Text) :
    (strip text).countP (fun c => !isSpace c) = text.countP fun c => !isSpace c := by
  have none_ : ∀ {blank : Text}, Blank blank → blank.countP (fun c => !isSpace c) = 0 := by
    intro blank blank_
    exact List.countP_eq_zero.mpr fun c member => by simp [blank_ c member]
  obtain ⟨lead, trail, leading, trailing, whole⟩ := exists_strip text
  conv_rhs => rw [whole]
  rw [List.countP_append, List.countP_append, none_ leading, none_ trailing]
  simp

/-! ## Continued lines -/

theorem endsEscaped_append {c : Char} (other : c ≠ '\\') (before rest : Text) :
    endsEscaped (before ++ c :: rest) = endsEscaped rest := by
  unfold endsEscaped
  rw [List.foldl_append, List.foldl_cons]
  simp [other]

theorem endsEscaped_of_notMem {line : Text} (free : '\\' ∉ line) : endsEscaped line = false := by
  cases reversed : line.reverse with
  | nil =>
    rw [List.reverse_eq_nil_iff.mp reversed]
    rfl
  | cons c rest =>
    have shape : line = rest.reverse ++ [c] := by
      rw [← List.reverse_reverse line, reversed, List.reverse_cons]
    have other : c ≠ '\\' := by
      rintro rfl
      exact free (by simp [shape])
    rw [shape, endsEscaped_append other]
    rfl

theorem exists_of_endsEscaped {line : Text} (escaped : endsEscaped line = true) :
    ∃ before, line = before ++ ['\\'] := by
  cases reversed : line.reverse with
  | nil =>
    rw [List.reverse_eq_nil_iff.mp reversed] at escaped
    cases escaped
  | cons c rest =>
    have shape : line = rest.reverse ++ [c] := by
      rw [← List.reverse_reverse line, reversed, List.reverse_cons]
    by_cases same : c = '\\'
    · exact ⟨rest.reverse, by rw [shape, same]⟩
    · rw [shape, endsEscaped_append same] at escaped
      cases escaped

theorem Blank.free {line : Text} (blank : Blank line) : '\\' ∉ line := by
  intro member
  have space := blank _ member
  revert space
  decide

theorem Blank.not_comment {line : Text} (blank : Blank line) : isComment line = false := by
  rw [isComment, List.dropWhile_eq_nil_iff.mpr blank]
  rfl

theorem itemsOf_blank {line : Text} (blank : Blank line) (rest : List Text) :
    itemsOf (line :: rest) = itemsOf rest := by
  have nothing : item line = none := by
    rw [item, strip_blank blank]
    rfl
  have read : logical none (line :: rest) = line :: logical none rest := by
    simp [logical, blank.not_comment, endsEscaped_of_notMem blank.free]
  simp [itemsOf, read, nothing]

theorem itemsOf_blanks {lines : List Text} (blank : ∀ line ∈ lines, Blank line) (rest : List Text) :
    itemsOf (lines ++ rest) = itemsOf rest := by
  induction lines with
  | nil => rfl
  | cons line more ih =>
    rw [List.cons_append, itemsOf_blank (blank line List.mem_cons_self)]
    exact ih fun other member => blank other (List.mem_cons_of_mem line member)

/-- A continued line goes on with the next line that is no comment. -/
theorem logical_continued {lines : List Text} (clean : ∀ line ∈ lines, '\n' ∉ line)
    (before : Text) :
    ∃ more after, logical (some (before ++ [' '])) lines = (before ++ ' ' :: more) :: after ∧
      '\n' ∉ more ∧ ∀ line ∈ lines.head?, isComment line = false →
        (Blank line → more = line) ∧ ∀ c ∈ line, c ≠ '\\' → c ∈ more := by
  induction lines generalizing before with
  | nil => exact ⟨[], [], by simp [logical], by simp, by simp⟩
  | cons line rest ih =>
    have others : ∀ other ∈ rest, '\n' ∉ other :=
      fun other member => clean other (List.mem_cons_of_mem line member)
    have here := clean line List.mem_cons_self
    unfold logical
    cases comment : isComment line with
    | true =>
      obtain ⟨more, after, read, free, -⟩ := ih others before
      refine ⟨more, after, by simpa using read, free, fun first isFirst no => ?_⟩
      obtain rfl : line = first := by simpa using isFirst
      rw [comment] at no
      cases no
    | false =>
      have whole : endsEscaped (before ++ [' '] ++ line) = endsEscaped line := by
        rw [List.append_assoc]
        exact endsEscaped_append (by decide) before line
      simp only [Bool.false_eq_true, if_false, Option.getD_some, whole]
      cases escaped : endsEscaped line with
      | true =>
        obtain ⟨start, rfl⟩ := exists_of_endsEscaped escaped
        obtain ⟨more, after, read, free, -⟩ := ih others (before ++ ' ' :: start)
        refine ⟨start ++ ' ' :: more, after, ?_, ?_, fun first isFirst _ => ?_⟩
        · have dropped : (before ++ [' '] ++ (start ++ ['\\'])).dropLast ++ [' '] =
              before ++ ' ' :: start ++ [' '] := by
            rw [← List.append_assoc, List.dropLast_concat]
            simp
          rw [if_pos rfl, dropped, read]
          simp
        · simp only [List.mem_append, List.mem_cons, not_or] at here ⊢
          exact ⟨here.1, by decide, free⟩
        · obtain rfl : start ++ ['\\'] = first := by simpa using isFirst
          refine ⟨fun blank => absurd (by simp) blank.free, fun c member other => ?_⟩
          rcases List.mem_append.mp member with inStart | last
          · exact List.mem_append_left _ inStart
          · exact absurd (List.mem_singleton.mp last) other
      | false =>
        refine ⟨line, logical none rest, by simp, here, fun first isFirst _ => ?_⟩
        obtain rfl : line = first := by simpa using isFirst
        exact ⟨fun _ => rfl, fun c member _ => member⟩

/-! ## The lines of a directive -/

/-- The name of a directive. -/
structure Key (key : Text) : Prop where
  nonempty : key ≠ []
  chars : ∀ c ∈ key, c.isAlphanum = true

/-- A value that is read back from its line: only blanks follow the first newline, and the line does
not end with a backslash. -/
structure Fits (value : Text) : Prop where
  rest : Blank (value.dropWhile (· ≠ '\n'))
  closed : endsEscaped (value.takeWhile (· ≠ '\n')) = false

section

variable {key value : Text}

theorem Key.apart (named : Key key) {c : Char} (other : c.isAlphanum = false) : c ∉ key := by
  intro member
  rw [named.chars c member] at other
  cases other

theorem isSpace_of_alphanum {c : Char} (char : c.isAlphanum = true) : isSpace c = false := by
  have apart : ∀ d ∈ [' ', '\t', '\n', '\r'], d.isAlphanum = false := by
    rw [← List.forall_iff_forall_mem]
    decide
  have differs : ∀ d ∈ [' ', '\t', '\n', '\r'], c ≠ d := by
    rintro d member rfl
    rw [apart c member] at char
    cases char
  simp only [List.forall_mem_cons] at differs
  simp [isSpace, differs]

theorem strip_rdropWhile (value : Text) : strip (value.rdropWhile isSpace) = strip value := by
  have trailing : Blank (value.rtakeWhile isSpace) :=
    fun c member => List.mem_rtakeWhile_imp member
  have whole : value.rdropWhile isSpace ++ value.rtakeWhile isSpace = value :=
    List.rdropWhile_append_rtakeWhile
  conv_rhs => rw [← whole]
  exact (strip_append_blank _ trailing).symm

theorem Key.tight (named : Key key) : Tight key where
  head := by
    cases first : key with
    | nil => rfl
    | cons c rest =>
      have char := named.chars c (first ▸ List.mem_cons_self)
      simpa using isSpace_of_alphanum char
  last := by
    rw [List.getLast?_eq_some_getLast named.nonempty]
    exact isSpace_of_alphanum (named.chars _ (List.getLast_mem named.nonempty))

theorem Key.free (named : Key key) : '=' ∉ key := named.apart (by decide)

theorem item_key (named : Key key) (value : Text) :
    item (key ++ '=' :: value) = some (.directive key (strip value)) := by
  obtain ⟨first, rest, shape⟩ := List.exists_cons_of_ne_nil named.nonempty
  have dropped : (key ++ '=' :: value).dropWhile isSpace = key ++ '=' :: value := by
    apply dropWhile_tight
    have head := named.tight.head
    rw [shape] at head ⊢
    simpa using head
  have stripped : strip (key ++ '=' :: value) = key ++ '=' :: value.rdropWhile isSpace := by
    rw [strip, dropped, rdropWhile_append_cons (by decide)]
  have bracket : ∀ tail, key ++ '=' :: value.rdropWhile isSpace ≠ '[' :: tail := by
    intro tail same
    rw [shape] at same
    have first_eq : first = '[' := (List.cons.inj same).1
    exact named.apart (by decide : '['.isAlphanum = false)
      (shape ▸ first_eq ▸ List.mem_cons_self)
  unfold item
  rw [stripped]
  split
  next tail same =>
    exact absurd same (bracket tail)
  · rw [if_pos (by simp), (takeWhile_name named.free).1, (takeWhile_name named.free).2,
      List.tail_cons, strip_rdropWhile, strip_tight named.tight]

theorem not_comment_key (named : Key key) (value : Text) :
    isComment (key ++ '=' :: value) = false := by
  obtain ⟨first, rest, shape⟩ := List.exists_cons_of_ne_nil named.nonempty
  have head := named.tight.head
  have apart : ∀ c ∈ ['#', ';'], first ≠ c := by
    rintro c member rfl
    have char := named.chars first (shape ▸ List.mem_cons_self)
    revert char
    have no : ∀ d ∈ ['#', ';'], d.isAlphanum = false := by
      rw [← List.forall_iff_forall_mem]
      decide
    rw [no first member]
    simp
  have dropped : (key ++ '=' :: value).dropWhile isSpace = key ++ '=' :: value := by
    apply dropWhile_tight
    rw [shape] at head ⊢
    simpa using head
  simp only [List.forall_mem_cons] at apart
  unfold isComment
  rw [dropped, shape]
  simp [apart.1, apart.2.1]

theorem mem_splitOn {text line : Text} (piece : line ∈ text.splitOn '\n') :
    '\n' ∉ line ∧ ∀ c ∈ line, c ∈ text := by
  induction text generalizing line with
  | nil =>
    obtain rfl : line = [] := by simpa using piece
    exact ⟨List.not_mem_nil, fun c member => by cases member⟩
  | cons d rest ih =>
    rw [List.splitOn_cons_eq_if_modifyHead] at piece
    by_cases newline : d = '\n'
    · rw [if_pos (by simp [newline])] at piece
      rcases List.mem_cons.mp piece with rfl | later
      · exact ⟨List.not_mem_nil, fun c member => by cases member⟩
      · obtain ⟨clean, inside⟩ := ih later
        exact ⟨clean, fun c member => List.mem_cons_of_mem d (inside c member)⟩
    · rw [if_neg (by simp [newline])] at piece
      obtain ⟨first, others, shape⟩ := List.exists_cons_of_ne_nil (List.splitOn_ne_nil '\n' rest)
      rw [shape, List.modifyHead_cons] at piece
      rcases List.mem_cons.mp piece with rfl | later
      · obtain ⟨clean, inside⟩ := @ih first (shape ▸ List.mem_cons_self)
        refine ⟨by simpa [Ne.symm newline] using clean, fun c member => ?_⟩
        rcases List.mem_cons.mp member with rfl | deeper
        · exact List.mem_cons_self
        · exact List.mem_cons_of_mem d (inside c deeper)
      · obtain ⟨clean, inside⟩ := ih (shape ▸ List.mem_cons_of_mem first later)
        exact ⟨clean, fun c member => List.mem_cons_of_mem d (inside c member)⟩

/-- The lines of a directive: its first one, and those that a newline in the value begins. -/
theorem splitOn_directive (named : Key key) (value : Text) :
    ∃ lines, (key ++ '=' :: value).splitOn '\n' =
        (key ++ '=' :: value.takeWhile (· ≠ '\n')) :: lines ∧
      (value.dropWhile (· ≠ '\n') = [] ∧ lines = [] ∨
        ∃ rest, value.dropWhile (· ≠ '\n') = '\n' :: rest ∧ lines = rest.splitOn '\n') := by
  have whole := List.takeWhile_append_dropWhile (p := (· ≠ '\n')) (l := value)
  have clean : '\n' ∉ key ++ '=' :: value.takeWhile (· ≠ '\n') := by
    simp only [List.mem_append, List.mem_cons, not_or]
    refine ⟨named.apart (by decide), by decide, fun member => ?_⟩
    simpa using List.mem_takeWhile_imp member
  have first := List.head?_dropWhile_not (· ≠ '\n') value
  cases tail : value.dropWhile (· ≠ '\n') with
  | nil =>
    rw [tail, List.append_nil] at whole
    rw [whole] at clean ⊢
    exact ⟨[], List.splitOn_eq_singleton clean, .inl ⟨rfl, rfl⟩⟩
  | cons c rest =>
    rw [tail] at first whole
    have newline : c = '\n' := by simpa using first
    subst newline
    refine ⟨rest.splitOn '\n', ?_, .inr ⟨rest, rfl, rfl⟩⟩
    conv_lhs => rw [← whole]
    rw [← List.cons_append, ← List.append_assoc, List.splitOn_append_cons_self,
      List.splitOn_eq_singleton clean]
    rfl

theorem logical_key (named : Key key) {line : Text} (closed : endsEscaped line = false)
    (rest : List Text) :
    itemsOf ((key ++ '=' :: line) :: rest) = .directive key (strip line) :: itemsOf rest := by
  have whole : endsEscaped (key ++ '=' :: line) = false :=
    (endsEscaped_append (by decide) key line).trans closed
  have read : logical none ((key ++ '=' :: line) :: rest) =
      (key ++ '=' :: line) :: logical none rest := by
    simp [logical, not_comment_key named, whole]
  simp [itemsOf, read, item_key named]

/-- A directive whose value fits is read back. -/
theorem read_fits (named : Key key) (fits : Fits value) (rest : List Text) :
    itemsOf ((key ++ '=' :: value).splitOn '\n' ++ rest) =
      .directive key (strip value) :: itemsOf rest := by
  obtain ⟨lines, split, tail⟩ := splitOn_directive named value
  have blank : ∀ line ∈ lines, Blank line := by
    intro line member
    rcases tail with ⟨-, rfl⟩ | ⟨after, shape, rfl⟩
    · cases member
    · intro c inside
      apply fits.rest
      rw [shape]
      exact List.mem_cons_of_mem _ ((mem_splitOn member).2 c inside)
  have stripped : strip (value.takeWhile (· ≠ '\n')) = strip value := by
    conv_rhs => rw [← List.takeWhile_append_dropWhile (p := (· ≠ '\n')) (l := value)]
    exact (strip_append_blank _ fits.rest).symm
  rw [split, List.cons_append, logical_key named fits.closed, itemsOf_blanks blank, stripped]

/-- Lines that may follow those of a directive: they begin with an empty line, or one with an
equality sign. -/
structure Follows (rest : List Text) : Prop where
  clean : ∀ line ∈ rest, '\n' ∉ line
  first : ∃ line, rest.head? = some line ∧ isComment line = false ∧ (line = [] ∨ '=' ∈ line)

/-- What is left of a value is not its first line, when there is more than blanks after it. -/
theorem strip_first_ne (more : ¬ Blank (value.dropWhile (· ≠ '\n'))) :
    strip (value.takeWhile (· ≠ '\n')) ≠ strip value := by
  intro same
  have counts := congrArg (List.countP fun c => !isSpace c) same
  have whole := List.takeWhile_append_dropWhile (p := (· ≠ '\n')) (l := value)
  rw [countP_strip, countP_strip] at counts
  conv_rhs at counts => rw [← whole, List.countP_append]
  have none_ : (value.dropWhile (· ≠ '\n')).countP (fun c => !isSpace c) = 0 := by omega
  apply more
  intro c member
  simpa using List.countP_eq_zero.mp none_ c member

/-- A value that goes on after a backslash is not what it was. -/
theorem strip_continued_ne {before after more : Text}
    (follows : Blank before → strip more ≠ '\\' :: after.rdropWhile isSpace) :
    strip (before ++ ' ' :: more) ≠ strip (before ++ '\\' :: after) := by
  intro same
  by_cases blank : Blank before
  · have left : strip (before ++ ' ' :: more) = strip more := by
      have shape : before ++ ' ' :: more = (before ++ [' ']) ++ more := by simp
      rw [shape]
      refine strip_blank_append (blank.append fun c member => ?_) more
      rw [List.mem_singleton.mp member]
      decide
    have right : strip (before ++ '\\' :: after) = '\\' :: after.rdropWhile isSpace := by
      rw [strip_blank_append blank]
      exact rdropWhile_append_cons (c := '\\') (by decide) [] after
    rw [left, right] at same
    exact follows blank same
  · have starts : ∀ rest,
        (before ++ rest).dropWhile isSpace = before.dropWhile isSpace ++ rest := by
      intro rest
      have some_ : before.dropWhile isSpace ≠ [] :=
        fun none_ => blank (List.dropWhile_eq_nil_iff.mp none_)
      rw [List.dropWhile_append]
      simp [some_]
    have right : strip (before ++ '\\' :: after) =
        before.dropWhile isSpace ++ '\\' :: after.rdropWhile isSpace := by
      rw [strip, starts]
      exact rdropWhile_append_cons (by decide) _ _
    have left : strip (before ++ ' ' :: more) <+: before.dropWhile isSpace ++ ' ' :: more := by
      rw [strip, starts]
      exact List.rdropWhile_prefix isSpace _
    rw [same, right, List.prefix_append_right_inj] at left
    exact absurd (List.cons_prefix_cons.mp left).1 (by decide)

/-- One whose value does not fit is not. -/
theorem not_read_of_not_fits (named : Key key) (unfit : ¬ Fits value) {rest : List Text}
    (follows : Follows rest) (others : List Item) :
    itemsOf ((key ++ '=' :: value).splitOn '\n' ++ rest) ≠
      .directive key (strip value) :: others := by
  obtain ⟨lines, split, tail⟩ := splitOn_directive named value
  have whole := List.takeWhile_append_dropWhile (p := (· ≠ '\n')) (l := value)
  rw [split, List.cons_append]
  cases escaped : endsEscaped (value.takeWhile (· ≠ '\n')) with
  | false =>
    intro read
    rw [logical_key named escaped] at read
    have values := (Item.directive.inj (List.cons.inj read).1).2
    exact strip_first_ne (fun blank => unfit ⟨blank, escaped⟩) values
  | true =>
    obtain ⟨before, shape⟩ := exists_of_endsEscaped escaped
    have clean : ∀ line ∈ lines ++ rest, '\n' ∉ line := by
      intro line member
      rcases List.mem_append.mp member with own | after
      · rcases tail with ⟨-, rfl⟩ | ⟨_, -, rfl⟩
        · cases own
        · exact (mem_splitOn own).1
      · exact follows.clean line after
    obtain ⟨more, after, read, free, first⟩ := logical_continued clean (key ++ '=' :: before)
    have starts : logical none ((key ++ '=' :: value.takeWhile (· ≠ '\n')) :: (lines ++ rest)) =
        (key ++ '=' :: (before ++ ' ' :: more)) :: after := by
      have whole_ : endsEscaped (key ++ '=' :: (before ++ ['\\'])) = true := by
        rw [endsEscaped_append (by decide), ← shape, escaped]
      have dropped : (key ++ '=' :: (before ++ ['\\'])).dropLast ++ [' '] =
          key ++ '=' :: before ++ [' '] := by
        rw [← List.cons_append, ← List.append_assoc, List.dropLast_concat]
      simp only [logical, shape, not_comment_key named, Bool.false_eq_true, if_false,
        Option.getD_none, List.nil_append, whole_, if_true]
      rw [dropped, read]
      simp
    have first_item : itemsOf ((key ++ '=' :: value.takeWhile (· ≠ '\n')) :: (lines ++ rest)) =
        .directive key (strip (before ++ ' ' :: more)) :: after.filterMap item := by
      rw [itemsOf, starts, List.filterMap_cons, item_key named]
    intro same
    rw [first_item] at same
    have values := (Item.directive.inj (List.cons.inj same).1).2
    rw [shape, List.append_assoc, List.singleton_append] at whole
    rw [← whole] at values
    refine strip_continued_ne (fun _ stripped => ?_) values
    rcases tail with ⟨none_, rfl⟩ | ⟨next, begins, rfl⟩
    · rw [none_] at stripped
      obtain ⟨line, head, comment, empty | equals⟩ := follows.first
      · have is_line := ((first line head) comment).1 (by simp [Blank, empty])
        rw [is_line, empty] at stripped
        cases stripped
      · have inside := ((first line head) comment).2 '=' equals (by decide)
        have kept := mem_strip inside (by decide)
        rw [stripped] at kept
        revert kept
        decide
    · rw [begins] at stripped
      by_cases blank : Blank ('\n' :: next)
      · obtain ⟨line, others, pieces⟩ :=
          List.exists_cons_of_ne_nil (List.splitOn_ne_nil '\n' next)
        have line_blank : Blank line := fun c member => blank c (List.mem_cons_of_mem _
          ((mem_splitOn (pieces ▸ List.mem_cons_self)).2 c member))
        have is_line := ((first line (by simp [pieces])) line_blank.not_comment).1 line_blank
        rw [is_line, strip_blank line_blank] at stripped
        cases stripped
      · have some_ : ('\n' :: next).rdropWhile isSpace ≠ [] := by
          intro none_
          exact blank (List.rdropWhile_eq_nil_iff.mp none_)
        obtain ⟨c, kept, kept_eq⟩ := List.exists_cons_of_ne_nil some_
        obtain ⟨trail, split_⟩ := List.rdropWhile_prefix isSpace ('\n' :: next)
        rw [kept_eq] at split_ stripped
        have newline : c = '\n' := (List.cons.inj split_).1
        have inside : '\n' ∈ strip more := by
          rw [stripped, newline]
          simp
        exact free (strip_subset more '\n' inside)

/-- Whether a directive is read back from its lines. -/
theorem read_directive_iff (named : Key key) {rest : List Text} (follows : Follows rest)
    (others : List Item) :
    itemsOf ((key ++ '=' :: value).splitOn '\n' ++ rest) = .directive key (strip value) :: others ↔
      Fits value ∧ itemsOf rest = others := by
  constructor
  · intro read
    by_cases fits : Fits value
    · rw [read_fits named fits] at read
      exact ⟨fits, (List.cons.inj read).2⟩
    · exact absurd read (not_read_of_not_fits named fits follows others)
  · rintro ⟨fits, rfl⟩
    exact read_fits named fits rest

end

/-! ## The lines of a file -/

/-- A directive, with its value as it was given. -/
abbrev Directive : Type := Text × Text

def Directive.line (d : Directive) : Text := d.1 ++ '=' :: d.2

def Directive.item (d : Directive) : Item := .directive d.1 (strip d.2)

theorem follows_directive {d : Directive} (named : Key d.1) {rest : List Text}
    (clean : ∀ line ∈ rest, '\n' ∉ line) : Follows (d.line.splitOn '\n' ++ rest) := by
  obtain ⟨lines, split, -⟩ := splitOn_directive named d.2
  refine ⟨fun line member => ?_, d.1 ++ '=' :: d.2.takeWhile (· ≠ '\n'), ?_,
    not_comment_key named _, .inr (by simp)⟩
  · rcases List.mem_append.mp member with own | after
    · exact (mem_splitOn own).1
    · exact clean line after
  · rw [Directive.line, split]
    rfl

/-- The directives of a section are read back when their values fit. -/
theorem read_directives_iff {directives : List Directive} (named : ∀ d ∈ directives, Key d.1)
    {rest : List Text} (follows : Follows rest) (others : List Item) :
    itemsOf (directives.flatMap (fun d => d.line.splitOn '\n') ++ rest) =
        directives.map Directive.item ++ others ↔
      (∀ d ∈ directives, Fits d.2) ∧ itemsOf rest = others := by
  induction directives with
  | nil => simp
  | cons d later ih =>
    have laterNamed : ∀ other ∈ later, Key other.1 :=
      fun other member => named other (List.mem_cons_of_mem d member)
    have next : Follows (later.flatMap (fun d => d.line.splitOn '\n') ++ rest) := by
      cases later with
      | nil => simpa using follows
      | cons second more =>
        rw [List.flatMap_cons, List.append_assoc]
        refine follows_directive (laterNamed second List.mem_cons_self) fun line member => ?_
        rcases List.mem_append.mp member with own | after
        · obtain ⟨other, -, piece⟩ := List.mem_flatMap.mp own
          exact (mem_splitOn piece).1
        · exact follows.clean line after
    rw [List.flatMap_cons, List.append_assoc, List.map_cons, List.cons_append]
    have first := @read_directive_iff d.1 d.2 (named d List.mem_cons_self) _ next
      (later.map Directive.item ++ others)
    rw [ih laterNamed, ← and_assoc] at first
    rw [List.forall_mem_cons]
    exact first

theorem read_section {name : Text} (named : Key name) (rest : List Text) :
    itemsOf (('[' :: name ++ [']']) :: rest) = .section_ name :: itemsOf rest := by
  have tight : Tight ('[' :: name ++ [']']) := by
    refine ⟨rfl, ?_⟩
    rw [List.getLast?_concat]
    rfl
  have is_section : item ('[' :: name ++ [']']) = some (.section_ name) := by
    rw [item, strip_tight tight]
    simp
  have free : '\\' ∉ '[' :: name ++ [']'] := by
    simp only [List.cons_append, List.mem_cons, List.mem_append, not_or]
    exact ⟨by decide, named.apart (by decide), by simp⟩
  have comment : isComment ('[' :: name ++ [']']) = false := by
    rw [isComment, dropWhile_tight tight.head]
    simp
  have read : logical none (('[' :: name ++ [']']) :: rest) =
      ('[' :: name ++ [']']) :: logical none rest := by
    simp only [logical, comment, Bool.false_eq_true, if_false, Option.getD_none, List.nil_append,
      endsEscaped_of_notMem free]
  rw [itemsOf, read, List.filterMap_cons, is_section]
  rfl

theorem read_comment {line : Text} (comment : isComment line = true) (rest : List Text) :
    itemsOf (line :: rest) = itemsOf rest := by
  have read : logical none (line :: rest) = logical none rest := by simp [logical, comment]
  rw [itemsOf, read]
  rfl

theorem collect_of_nonempty {Entry : Type} (read : Text → List Entry) {values : List Text}
    (nonempty : ∀ value ∈ values, value ≠ []) : collect read values = values.flatMap read := by
  have from_ : ∀ before : List Entry, values.foldl
      (fun before value => if value = [] then [] else before ++ read value) before =
        before ++ values.flatMap read := by
    induction values with
    | nil => simp
    | cons value rest ih =>
      intro before
      rw [List.foldl_cons, if_neg (nonempty value List.mem_cons_self),
        ih fun other member => nonempty other (List.mem_cons_of_mem value member)]
      simp
  exact from_ []

theorem valuesOf_directives (name key : Text) (here : Option Text) (directives : List Directive)
    (rest : List Item) :
    valuesOf name key here (directives.map Directive.item ++ rest) =
      (if here = some name then
        (directives.filter fun d => d.1 = key).map (fun d => strip d.2) else []) ++
        valuesOf name key here rest := by
  induction directives with
  | nil => simp
  | cons d later ih =>
    simp only [List.map_cons, List.cons_append, Directive.item, valuesOf] at ih ⊢
    rw [ih]
    by_cases at_ : here = some name <;> by_cases same : d.1 = key <;> simp [at_, same]

end HelixKit.UnitFile
