/-
Purpose: A scanner of lines whose buffer grows up to a limit, over a source that is read a piece at
  a time: the lines that it delivers, and when it gives up.
Trusted boundary: a read brings a byte at least, as long as there are any
-/
import HelixKit.Lib.LineReader

namespace HelixKit.LineScanner

open LineReader

variable {α : Type} [DecidableEq α] (sep : α)

/-- The lines that are ended, without the separator, and what is left. -/
def cutLines : List α → List (List α) × List α
  | [] => ([], [])
  | a :: rest =>
    if a = sep then ([] :: (cutLines rest).1, (cutLines rest).2)
    else
      match cutLines rest with
      | ([], left) => ([], a :: left)
      | (line :: more, left) => ((a :: line) :: more, left)

/-- What the buffer holds, and its size. -/
structure Buffer (α : Type) where
  held : List α
  size : Nat
deriving Repr, DecidableEq

/-- The lines that were delivered, and whether the scanner gave up since a line was too long. -/
structure Scanned (α : Type) where
  lines : List (List α)
  tooLong : Bool
deriving Repr, DecidableEq

variable (limit : Nat)

/-- The size of a buffer with this much in it, before it is read into: a full one is doubled. -/
def grown (held size : Nat) : Nat := if held = size then min (2 * size) limit else size

/-- The scanner, over what its source will bring, and how much more than a byte each read brings at
most; after these reads it waits. -/
def scan : List Nat → Buffer α → List α → Scanned α
  | [], buffer, _ =>
    let (lines, left) := cutLines sep buffer.held
    ⟨lines, left.length = buffer.size ∧ limit ≤ buffer.size⟩
  | read :: more, buffer, source =>
    let (lines, left) := cutLines sep buffer.held
    if left.length = buffer.size ∧ limit ≤ buffer.size then ⟨lines, true⟩
    else
      let size := grown limit left.length buffer.size
      let count := min (read + 1) (size - left.length)
      let next := scan more ⟨left ++ source.take count, size⟩ (source.drop count)
      ⟨lines ++ next.lines, next.tooLong⟩

/-- The lines as they are written, each with the separator. -/
def joined (bodies : List (List α)) : List α := (bodies.map (· ++ [sep])).flatten

/-! ## Lines in a buffer -/

variable {sep} {limit}

theorem cutLines_eq (sep : α) (text : List α) :
    text = joined sep (cutLines sep text).1 ++ (cutLines sep text).2 ∧
      sep ∉ (cutLines sep text).2 ∧ ∀ line ∈ (cutLines sep text).1, sep ∉ line := by
  induction text with
  | nil => simp [cutLines, joined]
  | cons a rest ih =>
    obtain ⟨whole, left, lines⟩ := ih
    unfold cutLines
    by_cases same : a = sep
    · rw [if_pos same]
      refine ⟨?_, left, ?_⟩
      · conv_lhs => rw [whole, same]
        simp [joined]
      · exact List.forall_mem_cons.mpr ⟨List.not_mem_nil, lines⟩
    · rw [if_neg same]
      generalize cutLines sep rest = cut at whole left lines
      obtain ⟨found, tail⟩ := cut
      cases found with
      | nil =>
        refine ⟨?_, by simpa [Ne.symm same] using left, by simp⟩
        conv_lhs => rw [whole]
        simp [joined]
      | cons line more =>
        refine ⟨?_, left, ?_⟩
        · conv_lhs => rw [whole]
          simp [joined]
        · obtain ⟨first, later⟩ := List.forall_mem_cons.mp lines
          exact List.forall_mem_cons.mpr ⟨by simpa [Ne.symm same] using first, later⟩

/-- The lines that a beginning of a text has are the first of all. -/
theorem joined_prefix {bodies lines : List (List α)} {rest : List α}
    (clean : ∀ body ∈ bodies, sep ∉ body) (cleanToo : ∀ line ∈ lines, sep ∉ line)
    (whole : joined sep lines ++ rest = joined sep bodies) :
    ∃ after, bodies = lines ++ after ∧ rest = joined sep after := by
  induction lines generalizing bodies with
  | nil => exact ⟨bodies, rfl, by simpa [joined] using whole⟩
  | cons line lines ih =>
    obtain ⟨first, later⟩ := List.forall_mem_cons.mp cleanToo
    have cut : cutLine sep (joined sep bodies) =
        some (line ++ [sep], joined sep lines ++ rest) := by
      rw [← whole]
      exact cutLine_eq_some.mpr ⟨line, first, rfl, by simp [joined]⟩
    cases bodies with
    | nil => cases cut
    | cons body bodies =>
      obtain ⟨own, others⟩ := List.forall_mem_cons.mp clean
      have shape : joined sep (body :: bodies) = (body ++ [sep]) ++ joined sep bodies := by
        simp [joined]
      have cutToo : cutLine sep (joined sep (body :: bodies)) =
          some (body ++ [sep], joined sep bodies) :=
        cutLine_eq_some.mpr ⟨body, own, rfl, shape⟩
      obtain ⟨sameLine, sameRest⟩ := Prod.mk.inj (Option.some.inj (cut.symm.trans cutToo))
      obtain ⟨after, split, tail⟩ := ih others later sameRest
      refine ⟨after, ?_, tail⟩
      rw [List.cons_append, ← split, List.append_cancel_right sameLine]

omit [DecidableEq α] in
/-- What is left of a buffer is the beginning of the next line. -/
theorem left_short {left rest body : List α} {bodies : List (List α)} (open_ : sep ∉ left)
    (whole : left ++ rest = joined sep (body :: bodies)) : left.length ≤ body.length := by
  have shape : joined sep (body :: bodies) = body ++ sep :: joined sep bodies := by simp [joined]
  rw [shape] at whole
  by_contra longer
  have inside : sep ∈ left := by
    have at_ : (left ++ rest)[body.length]? = some sep := by
      rw [whole]
      simp
    rw [List.getElem?_append_left (by omega)] at at_
    exact List.mem_of_getElem? at_
  exact open_ inside

/-! ## Runs of the scanner -/

/-- The state of a scanner that has these lines before it. -/
structure Ready (sep : α) (limit : Nat) (bodies : List (List α)) (buffer : Buffer α)
    (source : List α) : Prop where
  clean : ∀ body ∈ bodies, sep ∉ body
  whole : buffer.held ++ source = joined sep bodies
  some_ : 0 < buffer.size
  within : buffer.size ≤ limit
  fits : buffer.held.length ≤ buffer.size

variable {bodies : List (List α)} {buffer : Buffer α} {source : List α}

/-- The lines in the buffer are the next ones. -/
theorem Ready.cut (ready : Ready sep limit bodies buffer source) :
    ∃ after, bodies = (cutLines sep buffer.held).1 ++ after ∧
      (cutLines sep buffer.held).2 ++ source = joined sep after := by
  obtain ⟨whole, -, lines⟩ := cutLines_eq sep buffer.held
  refine joined_prefix ready.clean lines ?_
  rw [← List.append_assoc, ← whole]
  exact ready.whole

theorem length_cutLines (sep : α) (text : List α) : (cutLines sep text).2.length ≤ text.length := by
  obtain ⟨whole, -, -⟩ := cutLines_eq sep text
  conv_rhs => rw [whole]
  simp

theorem grown_le {held size : Nat} (within : size ≤ limit) : grown limit held size ≤ limit := by
  unfold grown
  split <;> omega

theorem lt_grown {held size : Nat} (fits : held ≤ size) (some_ : 0 < size)
    (open_ : ¬ (held = size ∧ limit ≤ size)) : held < grown limit held size := by
  unfold grown
  split <;> omega

/-- After a read, the scanner has the lines before it that come after those it delivered. -/
theorem Ready.next (ready : Ready sep limit bodies buffer source)
    (open_ : ¬ ((cutLines sep buffer.held).2.length = buffer.size ∧ limit ≤ buffer.size))
    (read : Nat) {after : List (List α)} (split : bodies = (cutLines sep buffer.held).1 ++ after)
    (rest : (cutLines sep buffer.held).2 ++ source = joined sep after) :
    let size := grown limit (cutLines sep buffer.held).2.length buffer.size
    let count := min (read + 1) (size - (cutLines sep buffer.held).2.length)
    Ready sep limit after ⟨(cutLines sep buffer.held).2 ++ source.take count, size⟩
      (source.drop count) := by
  have fits := Nat.le_trans (length_cutLines sep buffer.held) ready.fits
  have larger := lt_grown fits ready.some_ open_
  constructor
  · exact fun body member => ready.clean body (split ▸ List.mem_append_right _ member)
  · rw [List.append_assoc, List.take_append_drop, rest]
  · exact Nat.zero_lt_of_lt larger
  · exact grown_le ready.within
  · simp only [List.length_append, List.length_take]
    omega

/-- The scanner delivers lines in their order, and none that with its separator is longer than the
limit. -/
theorem scan_prefix (reads : List Nat) (ready : Ready sep limit bodies buffer source) :
    (scan sep limit reads buffer source).lines <+: bodies ∧
      ∀ line ∈ (scan sep limit reads buffer source).lines, line.length < limit := by
  have own : ∀ buffer : Buffer α, buffer.size ≤ limit → buffer.held.length ≤ buffer.size →
      ∀ line ∈ (cutLines sep buffer.held).1, line.length < limit := by
    intro buffer within fits line member
    obtain ⟨whole, -, -⟩ := cutLines_eq sep buffer.held
    have inside : line ++ [sep] ∈ (cutLines sep buffer.held).1.map (· ++ [sep]) :=
      List.mem_map.mpr ⟨line, member, rfl⟩
    have part : (line ++ [sep]).length ≤ (joined sep (cutLines sep buffer.held).1).length :=
      (List.sublist_flatten_of_mem inside).length_le
    have total := congrArg List.length whole
    simp only [List.length_append, List.length_singleton] at part total
    omega
  induction reads generalizing bodies buffer source with
  | nil =>
    obtain ⟨after, split, -⟩ := ready.cut
    exact ⟨⟨after, split.symm⟩, own buffer ready.within ready.fits⟩
  | cons read more ih =>
    obtain ⟨after, split, rest⟩ := ready.cut
    simp only [scan]
    by_cases full : (cutLines sep buffer.held).2.length = buffer.size ∧ limit ≤ buffer.size
    · rw [if_pos full]
      exact ⟨⟨after, split.symm⟩, own buffer ready.within ready.fits⟩
    · rw [if_neg full]
      obtain ⟨later, short⟩ := ih (ready.next full read split rest)
      refine ⟨?_, fun line member => ?_⟩
      · conv_rhs => rw [split]
        exact List.prefix_append_right_inj _ |>.mpr later
      · rcases List.mem_append.mp member with now | then_
        · exact own buffer ready.within ready.fits line now
        · exact short line then_

/-- The scanner does not give up over lines that with their separators are within the limit. -/
theorem scan_fits (reads : List Nat) (ready : Ready sep limit bodies buffer source)
    (short : ∀ body ∈ bodies, body.length < limit) :
    (scan sep limit reads buffer source).tooLong = false := by
  have open_ : ∀ {bodies buffer source}, Ready sep limit bodies buffer source →
      (∀ body ∈ bodies, body.length < limit) →
      ¬ ((cutLines sep buffer.held).2.length = buffer.size ∧ limit ≤ buffer.size) := by
    rintro bodies buffer source ready short ⟨full, large⟩
    obtain ⟨after, split, rest⟩ := ready.cut
    obtain ⟨-, apart, -⟩ := cutLines_eq sep buffer.held
    cases after with
    | nil =>
      have empty := congrArg List.length rest
      have some_ := ready.some_
      simp only [joined, List.map_nil, List.flatten_nil, List.length_append,
        List.length_nil] at empty
      omega
    | cons body after =>
      have within := left_short apart rest
      have fits := short body (split ▸ List.mem_append_right _ List.mem_cons_self)
      omega
  induction reads generalizing bodies buffer source with
  | nil =>
    have waits := open_ ready short
    simpa [scan] using waits
  | cons read more ih =>
    obtain ⟨after, split, rest⟩ := ready.cut
    simp only [scan]
    rw [if_neg (open_ ready short)]
    exact ih (ready.next (open_ ready short) read split rest)
      fun body member => short body (split ▸ List.mem_append_right _ member)

/-- With a read for each byte to come, a scanner that does not give up delivers all lines. -/
theorem scan_all (reads : List Nat) (ready : Ready sep limit bodies buffer source)
    (enough : source.length ≤ reads.length)
    (goes : (scan sep limit reads buffer source).tooLong = false) :
    (scan sep limit reads buffer source).lines = bodies := by
  have done : ∀ {bodies buffer}, Ready sep limit bodies buffer ([] : List α) →
      (cutLines sep buffer.held).1 = bodies := by
    intro bodies buffer ready
    obtain ⟨after, split, rest⟩ := ready.cut
    obtain ⟨-, apart, -⟩ := cutLines_eq sep buffer.held
    cases after with
    | nil => rw [split, List.append_nil]
    | cons body after =>
      refine absurd ?_ apart
      rw [List.append_nil] at rest
      rw [rest]
      simp [joined]
  induction reads generalizing bodies buffer source with
  | nil =>
    have empty : source = [] := List.length_eq_zero_iff.mp (Nat.le_zero.mp enough)
    subst empty
    exact done ready
  | cons read more ih =>
    obtain ⟨after, split, rest⟩ := ready.cut
    simp only [scan] at goes ⊢
    by_cases full : (cutLines sep buffer.held).2.length = buffer.size ∧ limit ≤ buffer.size
    · rw [if_pos full] at goes
      cases goes
    · rw [if_neg full] at goes ⊢
      have larger := lt_grown (Nat.le_trans (length_cutLines sep buffer.held) ready.fits)
        ready.some_ full
      rw [ih (ready.next full read split rest) ?_ goes, ← split]
      simp only [List.length_drop, List.length_cons] at enough ⊢
      omega

end HelixKit.LineScanner
