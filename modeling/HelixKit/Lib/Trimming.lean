/-
Purpose: A list without the blanks at its two ends, for any notion of a blank.
Trusted boundary: none
-/
import Mathlib.Data.List.Basic

namespace HelixKit.Trimming

variable {α : Type*} {blank other : α → Bool} {text : List α}

/-- The list without the blanks it begins and ends with. -/
def trimmed (blank : α → Bool) (text : List α) : List α :=
  ((text.dropWhile blank).reverse.dropWhile blank).reverse

/-- A list that neither begins nor ends with a blank is left as it is. -/
theorem trimmed_of_ends (first : ∀ a ∈ text.head?, blank a = false)
    (last : ∀ a ∈ text.getLast?, blank a = false) : trimmed blank text = text := by
  have kept : ∀ {list : List α}, (∀ a ∈ list.head?, blank a = false) →
      list.dropWhile blank = list := by
    intro list shown
    cases list with
    | nil => rfl
    | cons a rest => rw [List.dropWhile_cons, shown a rfl, if_neg Bool.false_ne_true]
  rw [trimmed, kept first, kept (by simpa using last), List.reverse_reverse]

theorem trimmed_cons {a : α} (dropped : blank a = true) (text : List α) :
    trimmed blank (a :: text) = trimmed blank text := by
  rw [trimmed, trimmed, List.dropWhile_cons, if_pos dropped]

theorem dropWhile_congr (same : ∀ a ∈ text, blank a = other a) :
    text.dropWhile blank = text.dropWhile other := by
  induction text with
  | nil => rfl
  | cons a rest ih =>
    have tail := ih fun b member => same b (List.mem_cons_of_mem a member)
    rw [List.dropWhile_cons, List.dropWhile_cons, same a List.mem_cons_self, tail]

theorem mem_dropWhile_or {a : α} (member : a ∈ text) : a ∈ text.dropWhile blank ∨ blank a := by
  induction text with
  | nil => cases member
  | cons b rest ih =>
    rw [List.dropWhile_cons]
    split
    next dropped =>
      rcases List.mem_cons.mp member with rfl | later
      · exact .inr dropped
      · exact ih later
    · exact .inl member

/-- Notions of a blank that agree on the list's members trim it alike. -/
theorem trimmed_congr (same : ∀ a ∈ text, blank a = other a) :
    trimmed blank text = trimmed other text := by
  have front := dropWhile_congr same
  have back : ∀ a ∈ (text.dropWhile other).reverse, blank a = other a := by
    intro a member
    have kept : a ∈ text := (List.dropWhile_sublist other).mem (List.mem_reverse.mp member)
    exact same a kept
  rw [trimmed, trimmed, front, dropWhile_congr back]

theorem mem_of_mem_trimmed {a : α} (member : a ∈ trimmed blank text) : a ∈ text := by
  have back := List.mem_reverse.mp member
  have front := List.mem_reverse.mp ((List.dropWhile_sublist blank).mem back)
  exact (List.dropWhile_sublist blank).mem front

/-- What is no blank is kept. -/
theorem mem_trimmed_or {a : α} (member : a ∈ text) : a ∈ trimmed blank text ∨ blank a := by
  rcases mem_dropWhile_or member with front | dropped
  · rcases mem_dropWhile_or (List.mem_reverse.mpr front) with back | dropped
    · exact .inl (List.mem_reverse.mpr back)
    · exact .inr dropped
  · exact .inr dropped

end HelixKit.Trimming
