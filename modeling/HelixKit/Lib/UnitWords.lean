/-
Purpose: The words of a value in a systemd unit file: quotes and escapes, specifiers, variables,
  command lines, and the assignments of environment variables.
Trusted boundary: the values of specifiers and variables are parameters
-/
import Mathlib.Algebra.GroupWithZero.Nat
import Mathlib.Algebra.Order.BigOperators.Group.List
import Mathlib.Algebra.Order.Group.Nat
import Mathlib.Algebra.Ring.Int.Defs
import Mathlib.Data.List.DropRight

namespace HelixKit.UnitWords

abbrev Text : Type := List Char

def isSpace (c : Char) : Bool := c = ' ' || c = '\t' || c = '\n' || c = '\r'

def isQuote (c : Char) : Bool := c = '"' || c = '\''

/-! ## Words -/

/-- What the characters after a backslash amount to. -/
inductive Escape where
  | more
  | char (c : Char)
  | invalid
deriving Repr, DecidableEq

def digit (base : Nat) (c : Char) : Option Nat :=
  let value :=
    if c.isDigit then c.toNat - '0'.toNat
    else if 'a' ≤ c ∧ c ≤ 'f' then c.toNat - 'a'.toNat + 10
    else if 'A' ≤ c ∧ c ≤ 'F' then c.toNat - 'A'.toNat + 10
    else base
  if value < base then some value else none

/-- A character by its number, of exactly so many digits. -/
def number (base width : Nat) (cs : Text) : Escape :=
  match cs.mapM (digit base) with
  | none => .invalid
  | some digits =>
    if digits.length < width then .more
    else
      let n := digits.foldl (fun n d => base * n + d) 0
      if n ≠ 0 ∧ n.isValidChar then .char (Char.ofNat n) else .invalid

/-- The escapes of one character, among them the one of a lone semicolon. -/
def simpleEscapes : List (Char × Char) :=
  [('a', '\x07'), ('b', '\x08'), ('f', '\x0c'), ('n', '\n'), ('r', '\r'), ('t', '\t'),
    ('v', '\x0b'),
    ('\\', '\\'), ('"', '"'), ('\'', '\''), ('s', ' '), (';', ';')]

def escape : Text → Escape
  | 'x' :: digits => number 16 2 digits
  | 'u' :: digits => number 16 4 digits
  | 'U' :: digits => number 16 8 digits
  | [c] =>
    match simpleEscapes.lookup c with
    | some out => .char out
    | none => number 8 3 [c]
  | digits => number 8 3 digits

/-- A word, and whether it stands there without a quote or an escape. -/
structure Word where
  text : Text
  bare : Bool
deriving Repr, DecidableEq

/-- The words so far, and the state inside the one that is being read. -/
structure Scan where
  words : List Word := []
  word : Option Word := none
  quote : Option Char := none
  escape : Option Text := none
deriving Repr, DecidableEq

namespace Scan

variable (s : Scan)

def current : Word := s.word.getD ⟨[], true⟩

def push (c : Char) : Scan :=
  { s with word := some { s.current with text := s.current.text ++ [c] } }

/-- The word goes on, though with a quote or an escape in it. -/
def quoted : Scan := { s with word := some { s.current with bare := false } }

def close : Scan := { s with words := s.words ++ s.word.toList, word := none }

def step (c : Char) : Option Scan :=
  match s.escape with
  | some cs =>
    match UnitWords.escape (cs ++ [c]) with
    | .more => some { s with escape := some (cs ++ [c]) }
    | .char out => some { s.push out with escape := none }
    | .invalid => none
  | none =>
    if c = '\\' then some { s.quoted with escape := some [] }
    else
      match s.quote with
      | some q => if c = q then some { s with quote := none } else some (s.push c)
      | none =>
        if isSpace c then some s.close
        else if isQuote c then some { s.quoted with quote := some c }
        else some (s.push c)

end Scan

/-- The words of a value; none where a quote or an escape is left open, or is unknown. -/
def words (text : Text) : Option (List Word) :=
  match text.foldlM Scan.step {} with
  | none => none
  | some s => if s.quote.isSome ∨ s.escape.isSome then none else some s.close.words

/-! ## Specifiers and variables -/

/-- What the machine has for a specifier, none where it is unknown, and for a variable, none where
it is not set. -/
structure Machine where
  specifier : Char → Option Text
  value : Text → Option Text

/-- The specifiers are replaced; `%%` is a percent sign. -/
def expand (specifier : Char → Option Text) : Text → Text
  | [] => []
  | '%' :: c :: rest =>
    (if c = '%' then ['%'] else (specifier c).getD ['%', c]) ++ expand specifier rest
  | c :: rest => c :: expand specifier rest

/-- Each `${NAME}` is replaced, in the name of which the text is or not; `$$` is a dollar sign. -/
def substitute (value : Text → Option Text) : Option Text → Text → Text
  | none, [] => []
  | some name, [] => '$' :: '{' :: name
  | some name, c :: rest =>
    if c = '}' then (value name).getD [] ++ substitute value none rest
    else substitute value (some (name ++ [c])) rest
  | none, '$' :: '$' :: rest => '$' :: substitute value none rest
  | none, '$' :: '{' :: rest => substitute value (some []) rest
  | none, c :: rest => c :: substitute value none rest

/-- The word is `$NAME`. -/
def isVariable : Text → Bool
  | '$' :: rest => rest.head? ≠ some '{' && rest.head? ≠ some '$'
  | _ => false

/-- The arguments that a word becomes: a word `$NAME` those that its value has. -/
def vary (value : Text → Option Text) (word : Text) : List Text :=
  if isVariable word then
    (((value word.tail).getD []).splitOnP isSpace).filter (· ≠ [])
  else [substitute value none word]

/-! ## Command lines -/

/-- The special prefixes of an executable. -/
def isMark (c : Char) : Bool := c = '@' || c = '-' || c = ':' || c = '+' || c = '!'

/-- The path of an executable is absolute, or a name without slashes. -/
def validPath (path : Text) : Bool := path ≠ [] && (path.head? = some '/' || !path.contains '/')

/-- The argument vector of a command; none where the executable is not valid. -/
def readCommand (machine : Machine) : List Text → Option (List Text)
  | [] => none
  | first :: rest =>
    let marks := first.takeWhile isMark
    let path := expand machine.specifier (first.dropWhile isMark)
    if ¬ validPath path then none
    else
      let argv := (if '@' ∈ marks then [] else [path]) ++ rest.map (expand machine.specifier)
      some (if ':' ∈ marks then argv else argv.flatMap (vary machine.value))

/-- A lone semicolon. -/
def Word.separates (word : Word) : Bool := word.bare && word.text = [';']

/-- The words of the first command, and those of each of the others. -/
def sequence : List Word → List Text × List (List Text)
  | [] => ([], [])
  | word :: rest =>
    if word.separates then ([], (sequence rest).1 :: (sequence rest).2)
    else (word.text :: (sequence rest).1, (sequence rest).2)

/-- The argument vectors of the commands in a value; a value that cannot be split is ignored. -/
def commands (machine : Machine) (value : Text) : List (List Text) :=
  match words value with
  | none => []
  | some ws => ((sequence ws).1 :: (sequence ws).2).filterMap (readCommand machine)

/-! ## Assignments -/

def isNameChar (c : Char) : Bool := c.isAlphanum || c = '_'

def validName (name : Text) : Bool :=
  name ≠ [] && name.all isNameChar && !(name.head?.any Char.isDigit)

def isControl (c : Char) : Bool := (c.toNat < 0x20 && c ≠ '\t' && c ≠ '\n') || c.toNat = 0x7f

def assignment (word : Text) : Option (Text × Text) :=
  let name := word.takeWhile (· ≠ '=')
  let value := (word.dropWhile (· ≠ '=')).tail
  if '=' ∈ word ∧ validName name ∧ ¬ value.any isControl then some (name, value) else none

/-- The variables that a value assigns; a word that is no assignment is ignored. -/
def assignments (machine : Machine) (value : Text) : List (Text × Text) :=
  match words value with
  | none => []
  | some ws => ws.filterMap fun word => assignment (expand machine.specifier word.text)

/-! ## Plain words -/

/-- A character that the splitting of words leaves as it is. -/
def ordinary (c : Char) : Bool := !isSpace c && !isQuote c && c ≠ '\\'

/-- A word that the splitting leaves as it is. -/
structure Plain (word : Text) : Prop where
  nonempty : word ≠ []
  chars : ∀ c ∈ word, ordinary c = true

variable {c : Char}

theorem ordinary_iff :
    ordinary c = true ↔ isSpace c = false ∧ isQuote c = false ∧ c ≠ '\\' := by
  simp [ordinary, and_assoc]

theorem step_ordinary {s : Scan} (unquoted : s.quote = none)
    (unescaped : s.escape = none) (plain : ordinary c = true) : s.step c = some (s.push c) := by
  obtain ⟨space, quote, backslash⟩ := ordinary_iff.mp plain
  simp [Scan.step, unquoted, unescaped, space, quote, backslash]

theorem step_space {s : Scan} (unquoted : s.quote = none) (unescaped : s.escape = none) :
    s.step ' ' = some s.close := by
  simp [Scan.step, unquoted, unescaped, isSpace]

/-- A plain word is read after what was read of the word before it. -/
theorem foldlM_ordinary {word : Text} (plain : ∀ c ∈ word, ordinary c = true) (ws : List Word)
    (before : Text) :
    word.foldlM Scan.step { words := ws, word := some ⟨before, true⟩ } =
      some { words := ws, word := some ⟨before ++ word, true⟩ } := by
  induction word generalizing before with
  | nil => simp
  | cons c rest ih =>
    rw [List.foldlM_cons, step_ordinary rfl rfl (plain c List.mem_cons_self)]
    have later := ih (fun other member => plain other (List.mem_cons_of_mem c member))
      (before ++ [c])
    simpa [Scan.push, Scan.current] using later

theorem foldlM_plain {word : Text} (plain : Plain word) (ws : List Word) :
    word.foldlM Scan.step { words := ws } =
      some { words := ws, word := some ⟨word, true⟩ } := by
  cases word with
  | nil => exact absurd rfl plain.nonempty
  | cons c rest =>
    rw [List.foldlM_cons, step_ordinary rfl rfl (plain.chars c List.mem_cons_self)]
    have later := foldlM_ordinary
      (fun other member => plain.chars other (List.mem_cons_of_mem c member)) ws [c]
    simpa [Scan.push, Scan.current] using later

theorem foldlM_join {first : Text} {rest : List Text} (plain : ∀ word ∈ first :: rest, Plain word)
    (ws : List Word) :
    ∃ last, (List.intercalate [' '] (first :: rest)).foldlM Scan.step { words := ws } =
        some { words := ws ++ ((first :: rest).dropLast.map fun word => ⟨word, true⟩)
               word := some ⟨last, true⟩ } ∧
      (first :: rest).getLast? = some last := by
  induction rest generalizing first ws with
  | nil =>
    refine ⟨first, ?_, rfl⟩
    have read := foldlM_plain (plain first List.mem_cons_self) ws
    simpa using read
  | cons second rest ih =>
    obtain ⟨last, read, ends⟩ := ih
      (fun word member => plain word (List.mem_cons_of_mem first member))
      (ws ++ [⟨first, true⟩])
    refine ⟨last, ?_, by simpa using ends⟩
    have shape : List.intercalate [' '] (first :: second :: rest) =
        first ++ ' ' :: List.intercalate [' '] (second :: rest) := by
      simp [List.intercalate, List.intersperse]
    have closed : Scan.step { words := ws, word := some ⟨first, true⟩ } ' ' =
        some { words := ws ++ [⟨first, true⟩] } := step_space rfl rfl
    rw [shape, List.foldlM_append, foldlM_plain (plain first List.mem_cons_self)]
    simp only [Option.bind_eq_bind, Option.bind_some, List.foldlM_cons, closed]
    rw [read]
    simp

/-- Plain words with spaces between them are read back. -/
theorem words_join {ws : List Text} (plain : ∀ word ∈ ws, Plain word) :
    words (List.intercalate [' '] ws) = some (ws.map fun word => ⟨word, true⟩) := by
  cases ws with
  | nil => rfl
  | cons first rest =>
    obtain ⟨last, read, ends⟩ := foldlM_join plain []
    unfold words
    rw [read]
    have whole := List.dropLast_append_getLast? last ends
    simp only [Option.isSome_none, Bool.false_eq_true, or_self, if_false, Scan.close,
      List.nil_append, Option.toList_some]
    rw [← whole]
    simp

/-! ## The length of what is read -/

/-- The length of the words with a space after each. -/
def cost (ws : List Text) : Nat := (ws.map fun word => word.length + 1).sum

@[simp] theorem cost_nil : cost [] = 0 := rfl

@[simp] theorem cost_cons (word : Text) (rest : List Text) :
    cost (word :: rest) = word.length + 1 + cost rest := by simp [cost]

@[simp] theorem cost_append (ws others : List Text) :
    cost (ws ++ others) = cost ws + cost others := by
  simp [cost]

theorem length_join (first : Text) (rest : List Text) :
    (List.intercalate [' '] (first :: rest)).length + 1 = cost (first :: rest) := by
  induction rest generalizing first with
  | nil => simp
  | cons second rest ih =>
    have shape : List.intercalate [' '] (first :: second :: rest) =
        first ++ ' ' :: List.intercalate [' '] (second :: rest) := by
      simp [List.intercalate, List.intersperse]
    rw [shape, cost_cons, ← ih]
    simp
    omega

/-- A quote or a backslash, which is not read as it is. -/
def special (c : Char) : Bool := isQuote c || c = '\\'

/-- The length of what was read. -/
def Scan.cost (s : Scan) : Nat :=
  UnitWords.cost (s.words.map Word.text) + (s.word.map fun word => word.text.length).getD 0

/-- What was read is no longer than the text, and shorter once there was a quote or a backslash in
it; without one, all words are bare and plain. -/
structure Scan.Within (s : Scan) (n : Nat) (seen : Bool) : Prop where
  within : s.cost + seen.toNat ≤ n
  open_ : seen = false → s.quote = none ∧ s.escape = none
  bare : seen = false → ∀ word ∈ s.words ++ s.word.toList, word.bare = true ∧ Plain word.text

theorem Scan.cost_push (s : Scan) (c : Char) : (s.push c).cost = s.cost + 1 := by
  unfold Scan.cost Scan.push Scan.current
  cases s.word <;> simp
  omega

theorem Scan.cost_quoted (s : Scan) : s.quoted.cost = s.cost := by
  unfold Scan.cost Scan.quoted Scan.current
  cases s.word <;> simp

theorem Scan.cost_close (s : Scan) : s.close.cost ≤ s.cost + 1 := by
  unfold Scan.cost Scan.close
  cases s.word <;> simp
  omega

/-- A step reads at most the one character. -/
theorem Scan.cost_step {s after : Scan} (stepped : s.step c = some after) :
    after.cost ≤ s.cost + 1 := by
  unfold Scan.step at stepped
  cases escaped : s.escape with
  | some cs =>
    rw [escaped] at stepped
    simp only at stepped
    split at stepped
    · cases stepped
      exact Nat.le_succ s.cost
    next out _ =>
      cases stepped
      exact (s.cost_push out).le
    · cases stepped
  | none =>
    rw [escaped] at stepped
    simp only at stepped
    split at stepped
    · cases stepped
      exact s.cost_quoted.le.trans (Nat.le_succ s.cost)
    split at stepped
    · split at stepped
      · cases stepped
        exact Nat.le_succ s.cost
      · cases stepped
        exact (s.cost_push c).le
    split at stepped
    · cases stepped
      exact s.cost_close
    split at stepped
    · cases stepped
      exact s.cost_quoted.le.trans (Nat.le_succ s.cost)
    · cases stepped
      exact (s.cost_push c).le

/-- Outside of quotes and escapes, a quote or a backslash is not read. -/
theorem Scan.cost_special {s after : Scan} (unquoted : s.quote = none)
    (unescaped : s.escape = none) (is_special : special c = true)
    (stepped : s.step c = some after) :
    after.cost = s.cost := by
  unfold Scan.step at stepped
  simp only [unquoted, unescaped] at stepped
  by_cases backslash : c = '\\'
  · rw [if_pos backslash] at stepped
    cases stepped
    exact s.cost_quoted
  · have quote : isQuote c = true := by simpa [special, backslash] using is_special
    have space : isSpace c = false := by
      rcases (by simpa [isQuote] using quote : c = '"' ∨ c = '\'') with rfl | rfl <;> rfl
    rw [if_neg backslash, space, quote] at stepped
    cases stepped
    exact s.cost_quoted

theorem Plain.push {word : Text} (plain : word = [] ∨ Plain word)
    (fits : ordinary c = true) : Plain (word ++ [c]) := by
  refine ⟨by simp, fun other member => ?_⟩
  rcases List.mem_append.mp member with before | here
  · rcases plain with rfl | plain
    · cases before
    · exact plain.chars other before
  · rw [List.mem_singleton.mp here]
    exact fits

theorem Scan.Within.step {s after : Scan} {n : Nat} {seen : Bool} {c : Char}
    (within : s.Within n seen) (stepped : s.step c = some after) :
    after.Within (n + 1) (seen || special c) := by
  obtain ⟨within, open_, bare⟩ := within
  have grows := Scan.cost_step stepped
  cases seen with
  | true =>
    simp only [Bool.toNat_true] at within
    refine ⟨?_, by simp, by simp⟩
    simp only [Bool.true_or, Bool.toNat_true]
    omega
  | false =>
    obtain ⟨unquoted, unescaped⟩ := open_ rfl
    simp only [Bool.toNat_false] at within
    rw [Bool.false_or]
    cases is_special : special c with
    | true =>
      have same := Scan.cost_special unquoted unescaped is_special stepped
      refine ⟨?_, by simp, by simp⟩
      simp only [Bool.toNat_true]
      omega
    | false =>
      have parts : isQuote c = false ∧ c ≠ '\\' := by simpa [special] using is_special
      by_cases space : isSpace c = true
      · have closed : after = s.close := by
          simpa [Scan.step, unquoted, unescaped, space, parts, eq_comm] using stepped
        subst closed
        refine ⟨by simpa using (by omega : s.close.cost ≤ n + 1), fun _ => ?_, fun _ => ?_⟩
        · exact ⟨unquoted, unescaped⟩
        · simpa [Scan.close] using bare rfl
      · have plain : ordinary c = true :=
          ordinary_iff.mpr ⟨by simpa using space, parts.1, parts.2⟩
        have pushed : after = s.push c :=
          (Option.some.inj ((step_ordinary unquoted unescaped plain).symm.trans stepped)).symm
        subst pushed
        refine ⟨by simpa using (by omega : (s.push c).cost ≤ n + 1), fun _ => ?_,
          fun _ word member => ?_⟩
        · exact ⟨unquoted, unescaped⟩
        · have others := bare rfl
          rcases List.mem_append.mp member with old | here
          · exact others word (List.mem_append_left _ old)
          · have same : word = { s.current with text := s.current.text ++ [c] } := by
              simpa [Scan.push, eq_comm] using here
            subst same
            unfold Scan.current
            cases reading : s.word with
            | none => exact ⟨rfl, .push (.inl rfl) plain⟩
            | some word =>
              obtain ⟨wasBare, wasPlain⟩ := others word (by simp [reading])
              exact ⟨wasBare, .push (.inr wasPlain) plain⟩

theorem Scan.Within.run {text : Text} {s after : Scan} {n : Nat} {seen : Bool}
    (within : s.Within n seen) (ran : text.foldlM Scan.step s = some after) :
    after.Within (n + text.length) (seen || text.any special) := by
  induction text generalizing s n seen with
  | nil =>
    cases ran
    simpa using within
  | cons c rest ih =>
    rw [List.foldlM_cons] at ran
    obtain ⟨next, stepped, ran⟩ := Option.bind_eq_some_iff.mp ran
    have later := ih (within.step stepped) ran
    rw [List.length_cons, List.any_cons, ← Bool.or_assoc]
    have lengths : n + (rest.length + 1) = n + 1 + rest.length := by omega
    rwa [lengths]

/-- The words of a text are no longer than it is; where it has a quote or a backslash they are
shorter, and otherwise they are bare and plain. -/
theorem words_cost {text : Text} {ws : List Word} (read : words text = some ws) :
    cost (ws.map Word.text) + (text.any special).toNat ≤ text.length + 1 ∧
      (text.any special = false → ∀ word ∈ ws, word.bare = true ∧ Plain word.text) := by
  unfold words at read
  cases ran : text.foldlM Scan.step {} with
  | none => simp [ran] at read
  | some s =>
    rw [ran] at read
    simp only at read
    split at read
    · cases read
    · cases read
      have start : Scan.Within {} 0 false := ⟨by simp [Scan.cost], by simp, by simp⟩
      have within := start.run ran
      have closed := s.cost_close
      have cost_words : s.close.cost = cost (s.close.words.map Word.text) := by
        simp [Scan.cost, Scan.close]
      have bound := within.within
      rw [Bool.false_or] at within bound
      refine ⟨by omega, fun unseen => ?_⟩
      simpa [Scan.close] using within.bare unseen

/-! ## Specifiers -/

/-- Only the last character is a percent sign, if any. -/
def percentFree (word : Text) : Bool := !word.dropLast.contains '%'

theorem percentFree_cons {d : Char} {rest : Text} :
    percentFree (c :: d :: rest) = true ↔ c ≠ '%' ∧ percentFree (d :: rest) = true := by
  unfold percentFree
  rw [List.dropLast_cons_cons, List.contains_cons, Bool.not_or, Bool.and_eq_true]
  simp only [Bool.not_eq_true', beq_eq_false_iff_ne]
  exact and_congr_left fun _ => ne_comm

section Expand

variable (specifier : Char → Option Text)

theorem expand_percent (c : Char) (rest : Text) : expand specifier ('%' :: c :: rest) =
    (if c = '%' then ['%'] else (specifier c).getD ['%', c]) ++ expand specifier rest := rfl

theorem expand_other (other : c ≠ '%') (rest : Text) :
    expand specifier (c :: rest) = c :: expand specifier rest := by
  unfold expand
  split
  next no =>
    cases no
  next same =>
    exact absurd (List.cons.inj same).1 other
  next same =>
    obtain ⟨rfl, rfl⟩ := List.cons.inj same
    rw [← expand.eq_def]

theorem expand_single (c : Char) : expand specifier [c] = [c] := by
  by_cases percent : c = '%'
  · subst percent
    rfl
  · exact expand_other specifier percent []

theorem expand_of_percentFree {word : Text} (free : percentFree word = true) :
    expand specifier word = word := by
  induction word with
  | nil => rfl
  | cons c rest ih =>
    cases rest with
    | nil => exact expand_single specifier c
    | cons d rest =>
      obtain ⟨other, later⟩ := percentFree_cons.mp free
      rw [expand_other specifier other, ih later]

end Expand

/-- A machine on which every specifier is empty and no variable is set. -/
def blank : Machine := ⟨fun _ => some [], fun _ => none⟩

/-- On it, the specifiers only make a word shorter. -/
theorem expand_blank (word : Text) : (expand blank.specifier word).length ≤ word.length ∧
    ((expand blank.specifier word).length = word.length → percentFree word = true) := by
  induction word using expand.induct with
  | case1 => exact ⟨Nat.le_refl _, fun _ => rfl⟩
  | case2 c rest ih =>
    have shorter : (expand blank.specifier ('%' :: c :: rest)).length <
        ('%' :: c :: rest).length := by
      rw [expand_percent]
      have nothing : blank.specifier c = some [] := rfl
      rw [nothing]
      by_cases percent : c = '%'
      · simp only [percent, if_true, List.length_append, List.length_cons, List.length_nil]
        omega
      · simp only [percent, if_false, Option.getD_some, List.nil_append, List.length_cons]
        omega
    exact ⟨shorter.le, fun same => absurd same shorter.ne⟩
  | case3 c rest other ih =>
    cases rest with
    | nil => exact ⟨by rw [expand_single], fun _ => rfl⟩
    | cons d rest =>
      have notPercent : c ≠ '%' := fun same => other d rest same rfl
      rw [expand_other blank.specifier notPercent]
      refine ⟨Nat.succ_le_succ ih.1, fun same => ?_⟩
      exact percentFree_cons.mpr ⟨notPercent, ih.2 (Nat.succ.inj same)⟩

/-! ## Variables -/

/-- A substitution changes the text: it has `$$`, or `${` and a `}` after it. -/
def varies : Text → Bool
  | '$' :: '$' :: _ => true
  | '$' :: '{' :: rest => rest.contains '}'
  | _ :: rest => varies rest
  | [] => false

/-- A word in which no variable stands. -/
def constant (word : Text) : Bool := !isVariable word && !varies word

section Substitute

variable (value : Text → Option Text)

theorem substitute_unclosed {rest : Text} (unclosed : '}' ∉ rest) (name : Text) :
    substitute value (some name) rest = '$' :: '{' :: (name ++ rest) := by
  induction rest generalizing name with
  | nil => simp [substitute]
  | cons c rest ih =>
    have parts : '}' ≠ c ∧ '}' ∉ rest := by simpa using unclosed
    rw [substitute, if_neg parts.1.symm, ih parts.2]
    simp

/-- Without values a closed name makes the text shorter. -/
theorem substitute_closed {rest : Text} (closed : '}' ∈ rest)
    (shorter : ∀ text, text.length < rest.length →
      (substitute blank.value none text).length ≤ text.length) (name : Text) :
    (substitute blank.value (some name) rest).length < rest.length := by
  induction rest generalizing name with
  | nil => cases closed
  | cons c rest ih =>
    rw [substitute]
    by_cases here : c = '}'
    · rw [if_pos here]
      have later := shorter rest (Nat.lt_succ_self _)
      exact Nat.lt_succ_of_le later
    · rw [if_neg here]
      have later : '}' ∈ rest := by
        rcases List.mem_cons.mp closed with same | later
        · exact absurd same.symm here
        · exact later
      have within := ih later (fun text short => shorter text (short.trans (Nat.lt_succ_self _)))
      exact (within (name ++ [c])).trans (Nat.lt_succ_self _)

theorem substitute_other {c : Char} {rest : Text}
    (dollars : ∀ tail, c = '$' → rest ≠ '$' :: tail)
    (braces : ∀ tail, c = '$' → rest ≠ '{' :: tail) :
    substitute value none (c :: rest) = c :: substitute value none rest := by
  conv_lhs => unfold substitute
  split
  next no =>
    cases no
  next no _ =>
    cases no
  next no _ =>
    cases no
  next tail _ same =>
    obtain ⟨rfl, rfl⟩ := List.cons.inj same
    exact absurd rfl (dollars tail rfl)
  next tail _ same =>
    obtain ⟨rfl, rfl⟩ := List.cons.inj same
    exact absurd rfl (braces tail rfl)
  next same =>
    obtain ⟨rfl, rfl⟩ := List.cons.inj same
    rfl

theorem substitute_of_not_varies {text : Text} (unvaried : varies text = false) :
    substitute value none text = text := by
  induction text using varies.induct with
  | case1 rest => cases unvaried
  | case2 rest =>
    have unclosed : '}' ∉ rest := by simpa [varies] using unvaried
    exact substitute_unclosed value unclosed []
  | case3 c rest dollars braces ih =>
    have later : varies rest = false := by
      rwa [varies] at unvaried
      · exact dollars
      · exact braces
    rw [substitute_other value (fun tail c_eq same => dollars tail c_eq same)
      (fun tail c_eq same => braces tail c_eq same), ih later]
  | case4 => rfl

end Substitute

/-- Without values a substitution only makes a text shorter. -/
theorem substitute_blank (text : Text) :
    (substitute blank.value none text).length ≤ text.length ∧
      ((substitute blank.value none text).length = text.length → varies text = false) := by
  induction length : text.length using Nat.strongRecOn generalizing text with
  | ind n ih =>
    subst length
    have shorter : ∀ other : Text, other.length < text.length →
        (substitute blank.value none other).length ≤ other.length :=
      fun other short => (ih other.length short other rfl).1
    fun_cases varies text with
    | case1 rest =>
      have dropped : (substitute blank.value none ('$' :: '$' :: rest)).length <
          ('$' :: '$' :: rest).length := by
        have later := shorter rest (Nat.lt_succ_of_lt (Nat.lt_succ_self _))
        simp only [substitute, List.length_cons]
        omega
      exact ⟨dropped.le, fun same => absurd same dropped.ne⟩
    | case2 rest =>
      by_cases closed : '}' ∈ rest
      · have dropped := substitute_closed closed
          (fun other short => shorter other
            (short.trans (Nat.lt_succ_of_lt (Nat.lt_succ_self _)))) []
        have shorter' : (substitute blank.value none ('$' :: '{' :: rest)).length <
            ('$' :: '{' :: rest).length := by
          simp only [substitute, List.length_cons]
          omega
        exact ⟨shorter'.le, fun same => absurd same shorter'.ne⟩
      · have same : substitute blank.value none ('$' :: '{' :: rest) = '$' :: '{' :: rest :=
          substitute_unclosed blank.value closed []
        rw [same]
        exact ⟨Nat.le_refl _, fun _ => by simpa using closed⟩
    | case3 c rest dollars braces =>
      have within := ih rest.length (Nat.lt_succ_self _) rest rfl
      rw [substitute_other blank.value (fun tail c_eq same => dollars tail c_eq same)
        (fun tail c_eq same => braces tail c_eq same)]
      exact ⟨Nat.succ_le_succ within.1, fun same => within.2 (Nat.succ.inj same)⟩
    | case4 => exact ⟨Nat.le_refl _, fun _ => rfl⟩

theorem vary_of_constant {word : Text} (unvaried : constant word = true)
    (value : Text → Option Text) : vary value word = [word] := by
  have parts : isVariable word = false ∧ varies word = false := by
    simpa [constant] using unvaried
  rw [vary, parts.1, substitute_of_not_varies value parts.2]
  rfl

/-- A word becomes shorter, or it has no variable. -/
theorem vary_blank (word : Text) : cost (vary blank.value word) ≤ word.length + 1 ∧
    (cost (vary blank.value word) = word.length + 1 → constant word = true) := by
  unfold vary
  cases named : isVariable word with
  | true =>
    have nothing : (([] : Text).splitOnP isSpace).filter (· ≠ []) = [] := rfl
    have unset : (blank.value word.tail).getD [] = [] := rfl
    rw [if_pos rfl, unset, nothing]
    exact ⟨by simp, fun same => by simp at same⟩
  | false =>
    obtain ⟨shorter, same⟩ := substitute_blank word
    rw [if_neg Bool.false_ne_true, cost_cons, cost_nil]
    refine ⟨by omega, fun kept => ?_⟩
    have unvaried := same (by omega)
    simp [constant, named, unvaried]

/-! ## Commands that are read as they are -/

/-- A word that neither the splitting nor a specifier or a variable changes. -/
structure Literal (word : Text) : Prop where
  plain : Plain word
  percentFree : percentFree word = true
  constant : constant word = true

/-- An argument vector that is read back as it is. -/
structure LiteralCommand (argv : List Text) : Prop where
  words : ∀ word ∈ argv, Literal word ∧ word ≠ [';']
  executable : ∃ path, argv.head? = some path ∧ validPath path = true ∧
    path.head?.any isMark = false

theorem sequence_bare {ws : List Word} (joined : ∀ word ∈ ws, word.separates = false) :
    sequence ws = (ws.map Word.text, []) := by
  induction ws with
  | nil => rfl
  | cons word rest ih =>
    have later := ih fun other member => joined other (List.mem_cons_of_mem word member)
    simp [sequence, joined word List.mem_cons_self, later]

/-- A separator is in no command. -/
theorem sequence_cost (ws : List Word) :
    cost (sequence ws).1 + ((sequence ws).2.map cost).sum ≤ cost (ws.map Word.text) ∧
      (cost (sequence ws).1 + ((sequence ws).2.map cost).sum = cost (ws.map Word.text) →
        ∀ word ∈ ws, word.separates = false) := by
  induction ws with
  | nil => simp [sequence]
  | cons word rest ih =>
    obtain ⟨within, all⟩ := ih
    unfold sequence
    cases separates : word.separates with
    | true =>
      simp only [if_true, cost_nil, List.map_cons, List.sum_cons, cost_cons]
      exact ⟨by omega, fun same => by omega⟩
    | false =>
      simp only [Bool.false_eq_true, if_false, List.map_cons, cost_cons]
      refine ⟨by omega, fun same other member => ?_⟩
      rcases List.mem_cons.mp member with rfl | later
      · exact separates
      · exact all (by omega) other later

theorem cost_flatMap {f : Text → List Text} (ws : List Text)
    (within : ∀ word, cost (f word) ≤ word.length + 1) :
    cost (ws.flatMap f) ≤ cost ws ∧
      (cost (ws.flatMap f) = cost ws → ∀ word ∈ ws, cost (f word) = word.length + 1) := by
  induction ws with
  | nil => simp
  | cons word rest ih =>
    obtain ⟨shorter, all⟩ := ih
    have here := within word
    rw [List.flatMap_cons, cost_append, cost_cons]
    refine ⟨by omega, fun same other member => ?_⟩
    rcases List.mem_cons.mp member with rfl | later
    · omega
    · exact all (by omega) other later

/-- What a word becomes on the blank machine. -/
theorem word_blank (word : Text) :
    cost (vary blank.value (expand blank.specifier word)) ≤ word.length + 1 ∧
      (cost (vary blank.value (expand blank.specifier word)) = word.length + 1 →
        percentFree word = true ∧ constant word = true) := by
  obtain ⟨shorter, free⟩ := expand_blank word
  obtain ⟨within, fixed⟩ := vary_blank (expand blank.specifier word)
  refine ⟨by omega, fun same => ?_⟩
  have percent := free (by omega)
  rw [expand_of_percentFree _ percent] at fixed same
  exact ⟨percent, fixed same⟩

variable {argv : List Text}

/-- Prefixes of the executable are not among the arguments. -/
theorem marked_shorter {first : Text} {rest : List Text}
    (marked : first.takeWhile isMark ≠ []) (read : readCommand blank (first :: rest) = some argv) :
    cost argv < cost (first :: rest) := by
  have path := (expand_blank (first.dropWhile isMark)).1
  have length := congrArg List.length (List.takeWhile_append_dropWhile (p := isMark) (l := first))
  have some_ := List.length_pos_iff.mpr marked
  have mapped : cost (rest.map (expand blank.specifier)) ≤ cost rest := by
    have bound := cost_flatMap (f := fun word => [expand blank.specifier word]) rest
      fun word => by simpa using (expand_blank word).1
    rw [List.map_eq_flatMap]
    exact bound.1
  have argvBound : cost ((if '@' ∈ first.takeWhile isMark then []
      else [expand blank.specifier (first.dropWhile isMark)]) ++
        rest.map (expand blank.specifier)) < cost (first :: rest) := by
    rw [List.length_append] at length
    rw [cost_append, cost_cons]
    split
    · rw [cost_nil]
      omega
    · rw [cost_cons, cost_nil]
      omega
  unfold readCommand at read
  simp only at read
  split at read
  · cases read
  obtain rfl := Option.some.inj read
  split
  · exact argvBound
  · exact ((cost_flatMap _ fun word => (vary_blank word).1).1).trans_lt argvBound

theorem unmarked_fixed {first : Text} {rest : List Text} (unmarked : first.takeWhile isMark = [])
    (read : readCommand blank (first :: rest) = some argv) :
    validPath (expand blank.specifier first) = true ∧
      argv = (first :: rest).flatMap fun word =>
        vary blank.value (expand blank.specifier word) := by
  have whole : first.dropWhile isMark = first := by
    have split := List.takeWhile_append_dropWhile (p := isMark) (l := first)
    rwa [unmarked] at split
  unfold readCommand at read
  simp only [unmarked, whole, List.not_mem_nil, if_false] at read
  split at read
  · cases read
  next valid =>
    refine ⟨by simpa using valid, ?_⟩
    rw [← Option.some.inj read]
    simp [List.flatMap_map]

/-- The arguments of a command are no longer than its words, and where they are as long they are its
words, none of which was changed. -/
theorem readCommand_blank {ws : List Text} (read : readCommand blank ws = some argv) :
    cost argv ≤ cost ws ∧
      (cost argv = cost ws → argv = ws ∧ (∀ word ∈ ws, percentFree word = true ∧
        constant word = true) ∧ ∃ path, ws.head? = some path ∧ validPath path = true ∧
          path.head?.any isMark = false) := by
  cases ws with
  | nil => cases read
  | cons first rest =>
    by_cases unmarked : first.takeWhile isMark = []
    · obtain ⟨valid, flat⟩ := unmarked_fixed unmarked read
      obtain ⟨within, all⟩ := cost_flatMap (first :: rest) fun word => (word_blank word).1
      rw [← flat] at within all
      refine ⟨within, fun same => ?_⟩
      have fixed : ∀ word ∈ first :: rest, percentFree word = true ∧ constant word = true :=
        fun word member => (word_blank word).2 (all same word member)
      refine ⟨?_, fixed, first, rfl, ?_, ?_⟩
      · have each : ∀ word ∈ first :: rest,
            vary blank.value (expand blank.specifier word) = [word] := by
          intro word member
          rw [expand_of_percentFree _ (fixed word member).1,
            vary_of_constant (fixed word member).2]
        rw [flat, List.flatMap_congr each]
        simp
      · rwa [expand_of_percentFree _ (fixed first List.mem_cons_self).1] at valid
      · cases first with
        | nil => rfl
        | cons c tail =>
          cases mark : isMark c with
          | false => simp [mark]
          | true => simp [mark] at unmarked
    · have shorter := marked_shorter unmarked read
      exact ⟨shorter.le, fun same => absurd same shorter.ne⟩

/-- Literal words with spaces between them are the command, on every machine. -/
theorem commands_literal (literal : LiteralCommand argv) (machine : Machine) :
    commands machine (List.intercalate [' '] argv) = [argv] := by
  obtain ⟨words_, path, head, valid, unmarked⟩ := literal
  have read := words_join fun word member => (words_ word member).1.plain
  have joined : ∀ word ∈ argv.map fun word => (⟨word, true⟩ : Word), word.separates = false := by
    intro word member
    obtain ⟨text, inside, rfl⟩ := List.mem_map.mp member
    simpa [Word.separates] using (words_ text inside).2
  have texts : (argv.map fun word => (⟨word, true⟩ : Word)).map Word.text = argv := by
    simp [List.map_map, Function.comp_def]
  unfold commands
  rw [read]
  simp only [sequence_bare joined, texts]
  obtain ⟨rest, rfl⟩ : ∃ rest, argv = path :: rest := by
    cases argv with
    | nil => cases head
    | cons first rest => exact ⟨rest, by rw [Option.some.inj head]⟩
  have marks : path.takeWhile isMark = [] ∧ path.dropWhile isMark = path := by
    cases path with
    | nil => exact ⟨rfl, rfl⟩
    | cons c tail =>
      have no : isMark c = false := by simpa using unmarked
      simp [no]
  have expands : ∀ word ∈ path :: rest, expand machine.specifier word = word :=
    fun word member => expand_of_percentFree _ (words_ word member).1.percentFree
  have constants : ∀ word ∈ path :: rest, vary machine.value word = [word] :=
    fun word member => vary_of_constant (words_ word member).1.constant machine.value
  have command : readCommand machine (path :: rest) = some (path :: rest) := by
    have mapped : rest.map (expand machine.specifier) = rest := by
      conv_rhs => rw [← List.map_id rest]
      exact List.map_congr_left fun word member => expands word (List.mem_cons_of_mem path member)
    have flat : (path :: rest).flatMap (vary machine.value) = path :: rest := by
      rw [List.flatMap_congr constants]
      simp
    unfold readCommand
    simp only [marks.1, marks.2, expands path List.mem_cons_self, valid, mapped, List.not_mem_nil,
      if_false, not_true_eq_false, List.singleton_append, flat]
  simp [command]

/-- When a value on the blank machine is one command whose arguments are as long as it is, they are
literal. -/
theorem literal_of_commands {line : Text}
    (read : commands blank line = [argv]) (long : line.length + 1 ≤ cost argv) :
    LiteralCommand argv := by
  unfold commands at read
  cases split : words line with
  | none => simp [split] at read
  | some ws =>
    rw [split] at read
    obtain ⟨within, bare⟩ := words_cost split
    obtain ⟨parts, joined⟩ := sequence_cost ws
    simp only at read
    have member : argv ∈ ((sequence ws).1 :: (sequence ws).2).filterMap (readCommand blank) := by
      rw [read]
      exact List.mem_singleton_self argv
    obtain ⟨command, inside, isArgv⟩ := List.mem_filterMap.mp member
    obtain ⟨shorter, same⟩ := readCommand_blank isArgv
    have sum : cost command ≤ cost (sequence ws).1 + ((sequence ws).2.map cost).sum := by
      rcases List.mem_cons.mp inside with rfl | later
      · exact Nat.le_add_right _ _
      · exact (List.single_le_sum (fun n _ => Nat.zero_le n) _ (List.mem_map_of_mem later)).trans
          (Nat.le_add_left _ _)
    have separate := joined (by omega)
    rw [sequence_bare separate] at inside
    have texts : command = ws.map Word.text := by simpa using inside
    subst texts
    obtain ⟨rfl, fixed, executable⟩ := same (by omega)
    have unseen : line.any special = false := by
      cases seen : line.any special with
      | false => rfl
      | true =>
        rw [seen] at within
        simp only [Bool.toNat_true] at within
        omega
    refine ⟨fun text isText => ?_, executable⟩
    obtain ⟨percent, constant_⟩ := fixed text isText
    obtain ⟨word, isWord, rfl⟩ := List.mem_map.mp isText
    obtain ⟨isBare, plain⟩ := bare unseen word isWord
    refine ⟨⟨plain, percent, constant_⟩, fun semicolon => ?_⟩
    have separates := separate word isWord
    simp [Word.separates, isBare, semicolon] at separates

/-! ## Assignments that are read as they are -/

/-- An environment variable that is read back as it is. -/
structure LiteralVariable (name value : Text) : Prop where
  valid : validName name = true
  chars : ∀ c ∈ value, ordinary c = true ∧ isControl c = false
  percentFree : percentFree (name ++ '=' :: value) = true

theorem nameChar_ordinary (char : isNameChar c = true) :
    ordinary c = true ∧ c ≠ '=' := by
  have apart : ∀ d ∈ [' ', '\t', '\n', '\r', '"', '\'', '\\', '='], isNameChar d = false := by
    rw [← List.forall_iff_forall_mem]
    decide
  have differs : ∀ d ∈ [' ', '\t', '\n', '\r', '"', '\'', '\\', '='], c ≠ d := by
    rintro d member rfl
    rw [apart c member] at char
    cases char
  simp only [List.forall_mem_cons] at differs
  simp [ordinary, isSpace, isQuote, differs]

/-- A text that is split at its first equality sign. -/
theorem takeWhile_name {name value : Text} (free : '=' ∉ name) :
    (name ++ '=' :: value).takeWhile (· ≠ '=') = name ∧
      (name ++ '=' :: value).dropWhile (· ≠ '=') = '=' :: value := by
  have all : ∀ c ∈ name, (decide (c ≠ '=')) = true :=
    fun c member => decide_eq_true fun same => free (same ▸ member)
  rw [List.takeWhile_append_of_pos all, List.dropWhile_append_of_pos all]
  simp

theorem assignment_eq {word name value : Text} (read : assignment word = some (name, value)) :
    word = name ++ '=' :: value ∧ validName name = true ∧ value.any isControl = false := by
  unfold assignment at read
  simp only at read
  split at read
  next valid =>
    obtain ⟨member, named, printable⟩ := valid
    obtain ⟨first, rest, rfl, free⟩ := List.eq_append_cons_of_mem member
    rw [(takeWhile_name free).1, (takeWhile_name free).2] at read
    rw [(takeWhile_name free).1] at named
    rw [(takeWhile_name free).2] at printable
    obtain ⟨rfl, rfl⟩ := Prod.mk.inj (Option.some.inj read)
    exact ⟨rfl, named, by simpa using printable⟩
  · cases read

theorem LiteralVariable.free {name value : Text} (literal : LiteralVariable name value) :
    '=' ∉ name := by
  intro member
  have valid := literal.valid
  simp only [validName, Bool.and_eq_true] at valid
  exact (nameChar_ordinary (List.all_eq_true.mp valid.1.2 '=' member)).2 rfl

theorem LiteralVariable.plain {name value : Text} (literal : LiteralVariable name value) :
    Plain (name ++ '=' :: value) := by
  have valid := literal.valid
  simp only [validName, Bool.and_eq_true] at valid
  refine ⟨by simp, fun c member => ?_⟩
  rcases List.mem_append.mp member with inName | inValue
  · exact (nameChar_ordinary (List.all_eq_true.mp valid.1.2 c inName)).1
  · rcases List.mem_cons.mp inValue with rfl | inValue
    · rfl
    · exact (literal.chars c inValue).1

/-- A literal variable is assigned, on every machine. -/
theorem assignments_literal {name value : Text} (literal : LiteralVariable name value)
    (machine : Machine) : assignments machine (name ++ '=' :: value) = [(name, value)] := by
  have read := @words_join [name ++ '=' :: value] fun word member => by
    rw [List.mem_singleton.mp member]
    exact literal.plain
  rw [List.intercalate_singleton] at read
  have printable : value.any isControl = false := by
    simpa using fun c member => (literal.chars c member).2
  have assigned : assignment (name ++ '=' :: value) = some (name, value) := by
    unfold assignment
    rw [(takeWhile_name literal.free).1, (takeWhile_name literal.free).2]
    simp [literal.valid, printable]
  unfold assignments
  rw [read]
  simp [expand_of_percentFree _ literal.percentFree, assigned]

/-- The text of an assignment. -/
def assigned (pair : Text × Text) : Text := pair.1 ++ '=' :: pair.2

/-- The assignments of a value on the blank machine are no longer than it is. -/
theorem assignments_cost (line : Text) :
    cost ((assignments blank line).map assigned) ≤ line.length + 1 := by
  unfold assignments
  cases split : words line with
  | none => simp
  | some ws =>
    refine le_trans ?_ ((Nat.le_add_right _ _).trans (words_cost split).1)
    simp only
    clear split
    induction ws with
    | nil => simp
    | cons word rest ih =>
      have shorter := (expand_blank word.text).1
      rw [List.filterMap_cons, List.map_cons, cost_cons]
      split
      · exact ih.trans (Nat.le_add_left _ _)
      next pair read =>
        have text := (assignment_eq read).1
        rw [text] at shorter
        rw [List.map_cons, cost_cons]
        exact Nat.add_le_add (Nat.succ_le_succ shorter) ih

theorem literal_of_assigned {line name value : Text}
    (read : assignments blank line = [(name, value)])
    (long : line.length ≤ (assigned (name, value)).length) : LiteralVariable name value := by
  unfold assignments at read
  cases split : words line with
  | none => simp [split] at read
  | some ws =>
    rw [split] at read
    simp only at read
    obtain ⟨within, bare⟩ := words_cost split
    have member : (name, value) ∈
        ws.filterMap fun word => assignment (expand blank.specifier word.text) := by
      rw [read]
      exact List.mem_singleton_self _
    obtain ⟨word, inside, assigns⟩ := List.mem_filterMap.mp member
    obtain ⟨text, valid, printable⟩ := assignment_eq assigns
    obtain ⟨shorter, free⟩ := expand_blank word.text
    have lengths : (expand blank.specifier word.text).length = (assigned (name, value)).length :=
      congrArg List.length text
    have one : word.text.length + 1 ≤ cost (ws.map Word.text) := by
      unfold cost
      refine List.single_le_sum (fun n _ => Nat.zero_le n) _ ?_
      exact List.mem_map_of_mem (f := fun word : Text => word.length + 1)
        (List.mem_map_of_mem inside)
    have unseen : line.any special = false := by
      cases seen : line.any special with
      | false => rfl
      | true =>
        rw [seen] at within
        simp only [Bool.toNat_true] at within
        omega
    rw [unseen] at within
    simp only [Bool.toNat_false] at within
    have percent := free (by omega)
    rw [expand_of_percentFree _ percent] at text
    have plain := (bare unseen word inside).2
    rw [text] at plain percent
    refine ⟨valid, fun c member => ⟨plain.chars c ?_, ?_⟩, percent⟩
    · exact List.mem_append_right _ (List.mem_cons_of_mem _ member)
    · simpa using List.any_eq_false.mp printable c member

/-- Parts that are no larger than what they come from, and put together are the same, are the
same. -/
theorem flatMap_parts {α : Type} {size : α → Nat} {f : α → List α} {ps : List α}
    (positive : ∀ p, 0 < size p) (within : ∀ p ∈ ps, ((f p).map size).sum ≤ size p)
    (whole : ps.flatMap f = ps) : ∀ p ∈ ps, f p = [p] := by
  induction ps with
  | nil => simp
  | cons p rest ih =>
    have here := within p List.mem_cons_self
    have others : ∀ q ∈ rest, ((f q).map size).sum ≤ size q :=
      fun q member => within q (List.mem_cons_of_mem p member)
    have total : ((rest.flatMap f).map size).sum ≤ (rest.map size).sum := by
      clear whole ih
      induction rest with
      | nil => simp
      | cons q rest ih =>
        have first := others q List.mem_cons_self
        have later := ih (fun r member => within r (by
          rcases List.mem_cons.mp member with rfl | deeper
          · exact List.mem_cons_self
          · exact List.mem_cons_of_mem _ (List.mem_cons_of_mem _ deeper)))
          (fun r member => others r (List.mem_cons_of_mem q member))
        simp only [List.flatMap_cons, List.map_append, List.sum_append, List.map_cons,
          List.sum_cons]
        omega
    rw [List.flatMap_cons] at whole
    cases part : f p with
    | nil =>
      rw [part, List.nil_append] at whole
      rw [whole] at total
      have some_ := positive p
      simp only [List.map_cons, List.sum_cons] at total
      omega
    | cons q qs =>
      rw [part, List.cons_append] at whole
      obtain ⟨rfl, later⟩ := List.cons.inj whole
      rw [part, List.map_cons, List.sum_cons] at here
      have none_ : qs = [] := by
        cases qs with
        | nil => rfl
        | cons r qs =>
          have some_ := positive r
          simp only [List.map_cons, List.sum_cons] at here
          omega
      subst none_
      intro r member
      rcases List.mem_cons.mp member with rfl | deeper
      · exact part
      · exact ih others later r deeper

end HelixKit.UnitWords
