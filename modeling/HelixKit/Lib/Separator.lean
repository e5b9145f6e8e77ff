/-
Purpose: Lists that are put together around a separator, and decimal digits, which
  are taken apart again.
Trusted boundary: none
-/
import Mathlib.Data.List.Basic

namespace HelixKit.Separator

variable {α : Type*}

/-- The first separator is where it was put. -/
theorem append_sep_inj {sep : α} {front other rest tail : List α} (absent : sep ∉ front)
    (missing : sep ∉ other) (same : front ++ sep :: rest = other ++ sep :: tail) :
    front = other ∧ rest = tail := by
  induction front generalizing other with
  | nil =>
    cases other with
    | nil => exact ⟨rfl, (List.cons.inj same).2⟩
    | cons first more =>
      have head : sep = first := (List.cons.inj same).1
      exact absurd (head ▸ List.mem_cons_self) missing
  | cons first more ih =>
    cases other with
    | nil =>
      have head : first = sep := (List.cons.inj same).1
      exact absurd (head ▸ List.mem_cons_self) absent
    | cons second others =>
      obtain ⟨heads, tails⟩ := List.cons.inj same
      obtain ⟨fronts, rests⟩ := ih (fun member => absent (List.mem_cons_of_mem _ member))
        (fun member => missing (List.mem_cons_of_mem _ member)) tails
      exact ⟨by rw [heads, fronts], rests⟩

/-- No piece has the separator. -/
theorem notMem_of_mem_splitOn [DecidableEq α] {sep : α} {list piece : List α}
    (member : piece ∈ list.splitOn sep) : sep ∉ piece := by
  induction list generalizing piece with
  | nil =>
    rw [List.splitOn_nil, List.mem_singleton] at member
    simp [member]
  | cons a rest ih =>
    rw [List.splitOn_cons_eq_if_modifyHead] at member
    split at member
    · rcases List.mem_cons.mp member with rfl | later
      · simp
      · exact ih later
    next other =>
      obtain ⟨first, more, split⟩ := List.exists_cons_of_ne_nil (List.splitOn_ne_nil sep rest)
      rw [split] at member ih
      rcases List.mem_cons.mp member with rfl | later
      · have apart : ¬ sep = a := fun same => other (beq_iff_eq.mpr same.symm)
        simp [apart, ih List.mem_cons_self]
      · exact ih (List.mem_cons_of_mem first later)

theorem toDigits_inj {n m : Nat} (same : Nat.toDigits 10 n = Nat.toDigits 10 m) : n = m := by
  have values := congrArg (Nat.ofDigitChars 10 · 0) same
  simpa using values

theorem notMem_toDigits {sep : Char} (noDigit : sep.isDigit = false) (n : Nat) :
    sep ∉ Nat.toDigits 10 n := by
  intro member
  have digit := Nat.isDigit_of_mem_toDigits (by decide) (by decide) member
  rw [noDigit] at digit
  cases digit

end HelixKit.Separator
