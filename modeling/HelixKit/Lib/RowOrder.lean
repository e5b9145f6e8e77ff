/-
Purpose: What a query returns when only some of its order is fixed: the first row, the first of the
  newest rows, and an order that puts preferred rows in front.
Trusted boundary: none
-/
import Mathlib.Data.List.Perm.Basic

namespace HelixKit.RowOrder

variable {Row : Type*}

/-! ## Preferred rows -/

/-- The rows with the preferred ones in front. -/
def preferring (preferred : Row → Bool) (rows : List Row) : List Row :=
  rows.filter preferred ++ rows.filter fun row => !preferred row

theorem preferring_perm (preferred : Row → Bool) (rows : List Row) :
    (preferring preferred rows).Perm rows :=
  List.filter_append_perm preferred rows

theorem find?_preferring {preferred other : Row → Bool} {rows : List Row} {row : Row}
    (member : row ∈ rows) (chosen : preferred row = true) (accepted : other row = true) :
    ∃ first, (preferring preferred rows).find? other = some first ∧ preferred first = true := by
  have inside : row ∈ rows.filter preferred := List.mem_filter.mpr ⟨member, chosen⟩
  have found : ((rows.filter preferred).find? other).isSome := by
    rw [List.find?_isSome]
    exact ⟨row, inside, accepted⟩
  obtain ⟨first, first_eq⟩ := Option.isSome_iff_exists.mp found
  refine ⟨first, ?_, (List.mem_filter.mp (List.mem_of_find?_eq_some first_eq)).2⟩
  rw [preferring, List.find?_append, first_eq]
  rfl

theorem preferring_eq_cons (preferred : Row → Bool) {rows : List Row} {row : Row}
    (member : row ∈ rows) (chosen : ∀ other, preferred other = true ↔ other = row) :
    ∃ rest, preferring preferred rows = row :: rest := by
  have inside : row ∈ rows.filter preferred :=
    List.mem_filter.mpr ⟨member, (chosen row).mpr rfl⟩
  cases shape : rows.filter preferred with
  | nil => rw [shape] at inside; cases inside
  | cons first rest =>
    have first_mem : first ∈ rows.filter preferred := by rw [shape]; exact List.mem_cons_self
    have first_eq : first = row := (chosen first).mp (List.mem_filter.mp first_mem).2
    exact ⟨rest ++ rows.filter fun row => !preferred row, by rw [preferring, shape, first_eq]; rfl⟩

/-! ## The first row -/

/-- Where all rows are equal, their order does not show in the first. -/
theorem head?_eq_of_perm {rows other : List Row} (perm : rows.Perm other)
    (unique : ∀ a ∈ rows, ∀ b ∈ rows, a = b) : rows.head? = other.head? := by
  cases rows with
  | nil => rw [perm.nil_eq]
  | cons a rest =>
    cases other with
    | nil => exact absurd perm (by simp)
    | cons b others =>
      have member : b ∈ a :: rest := perm.mem_iff.mpr List.mem_cons_self
      simp [unique a List.mem_cons_self b member]

/-! ## The newest rows -/

variable (time : Row → Nat)

/-- The rows none of the rows is newer than. -/
def newest (rows : List Row) : List Row :=
  rows.filter fun row => rows.all fun other => time other ≤ time row

/-- The first row when they are ordered by descending time. -/
def firstNewest (rows : List Row) : Option Row :=
  rows.find? fun row => rows.all fun other => time other ≤ time row

variable {time} {rows : List Row}

theorem firstNewest_eq_head? (rows : List Row) :
    firstNewest time rows = (newest time rows).head? := by
  simp [firstNewest, newest, List.head?_filter]

theorem newest_perm (time : Row → Nat) {rows other : List Row} (perm : rows.Perm other) :
    (newest time rows).Perm (newest time other) := by
  unfold newest
  have same : (fun row => rows.all fun older => decide (time older ≤ time row)) =
      fun row => other.all fun older => decide (time older ≤ time row) := by
    funext row
    exact perm.all_eq
  rw [same]
  exact perm.filter _

theorem firstNewest_mem {rows other : List Row} (perm : rows.Perm other) {row : Row}
    (first : firstNewest time rows = some row) : row ∈ newest time other := by
  rw [firstNewest_eq_head?] at first
  exact (newest_perm time perm).mem_iff.mp (List.mem_of_mem_head? first)

theorem firstNewest_eq_none {rows other : List Row} (perm : rows.Perm other) :
    firstNewest time rows = none ↔ newest time other = [] := by
  rw [firstNewest_eq_head?, List.head?_eq_none_iff]
  constructor
  · intro empty
    have := newest_perm time perm
    rw [empty] at this
    exact this.nil_eq.symm
  · intro empty
    have := newest_perm time perm
    rw [empty] at this
    exact this.eq_nil

/-- In the order that prefers them, one of the preferred among the newest rows comes first. -/
theorem firstNewest_preferring {preferred : Row → Bool} {row : Row}
    (member : row ∈ newest time rows) (chosen : preferred row = true) :
    ∃ first, firstNewest time (preferring preferred rows) = some first ∧
      preferred first = true := by
  obtain ⟨inside, latest⟩ := List.mem_filter.mp member
  apply find?_preferring inside chosen
  rw [(preferring_perm preferred rows).all_eq]
  exact latest

end HelixKit.RowOrder
