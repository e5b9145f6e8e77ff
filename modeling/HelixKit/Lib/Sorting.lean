/-
Purpose: Sorting by a comparison, which leaves open how ties come out, and gathering the first rows
  of a kind.
Trusted boundary: none
-/
import Mathlib.Data.List.Perm.Subperm
import Mathlib.Data.List.Sort
import Mathlib.Order.Compare

namespace HelixKit.Sorting

variable {Row : Type}

/-- The comparison is a total order of these rows, up to ties. -/
structure Consistent (order : Row → Row → Ordering) (rows : List Row) : Prop where
  swap : ∀ a ∈ rows, ∀ b ∈ rows, order b a = (order a b).swap
  trans : ∀ a ∈ rows, ∀ b ∈ rows, ∀ c ∈ rows,
    order a b ≠ .gt → order b c ≠ .gt → order a c ≠ .gt

/-- `qsort`: it leaves open how ties come out, and everything but the elements themselves when the
comparison is not consistent. -/
structure Qsort (Row : Type) where
  sort : (Row → Row → Ordering) → List Row → List Row
  perm : ∀ order rows, (sort order rows).Perm rows
  sorted : ∀ order rows, Consistent order rows → (sort order rows).Pairwise (order · · ≠ .gt)

namespace Consistent

variable {order other : Row → Row → Ordering} {rows : List Row}

theorem of_cmp {α : Type} [LinearOrder α] (key : Row → α) (rows : List Row) :
    Consistent (fun a b => cmp (key a) (key b)) rows where
  swap := fun a _ b _ => (cmp_swap (key a) (key b)).symm
  trans := fun a _ b _ c _ => by
    rw [(cmp_compares (key a) (key b)).ne_gt, (cmp_compares (key b) (key c)).ne_gt,
      (cmp_compares (key a) (key c)).ne_gt]
    exact le_trans

theorem congr (consistent : Consistent order rows)
    (same : ∀ a ∈ rows, ∀ b ∈ rows, other a b = order a b) : Consistent other rows where
  swap := by
    intro a ha b hb
    rw [same b hb a ha, same a ha b hb]
    exact consistent.swap a ha b hb
  trans := by
    intro a ha b hb c hc
    rw [same a ha b hb, same b hb c hc, same a ha c hc]
    exact consistent.trans a ha b hb c hc

theorem reverse (consistent : Consistent order rows) :
    Consistent (fun a b => (order a b).swap) rows where
  swap := fun a ha b hb => by rw [consistent.swap a ha b hb]
  trans := by
    intro a ha b hb c hc ab bc
    rw [← consistent.swap a ha c hc]
    rw [← consistent.swap a ha b hb] at ab
    rw [← consistent.swap b hb c hc] at bc
    exact consistent.trans c hc b hb a ha bc ab

theorem perm (consistent : Consistent order rows) {moved : List Row} (same : moved.Perm rows) :
    Consistent order moved where
  swap := fun a ha b hb => consistent.swap a (same.mem_iff.1 ha) b (same.mem_iff.1 hb)
  trans := fun a ha b hb c hc =>
    consistent.trans a (same.mem_iff.1 ha) b (same.mem_iff.1 hb) c (same.mem_iff.1 hc)

end Consistent

/-! ### Sorts -/

/-- Insertion sort is a sort that leaves ties alone. -/
def Qsort.stable (Row : Type) : Qsort Row where
  sort order rows := rows.insertionSort (order · · ≠ .gt)
  perm order rows := List.perm_insertionSort _ rows
  sorted := by
    intro order rows consistent
    -- among the rows themselves, the comparison is total and transitive
    let among : {row // row ∈ rows} → {row // row ∈ rows} → Prop := fun a b => order a b ≠ .gt
    have total : Std.Total among := ⟨fun a b => by
      have back := consistent.swap a a.2 b b.2
      cases forth : order a b with
      | lt | eq => exact .inl (by simp [among, forth])
      | gt => exact .inr (by simp [among, back, forth])⟩
    have trans : IsTrans _ among := ⟨fun a b c =>
      consistent.trans a a.2 b b.2 c c.2⟩
    have sorted : (rows.attach.insertionSort among).Pairwise among :=
      List.pairwise_insertionSort among _
    have same : (rows.attach.insertionSort among).map Subtype.val =
        rows.insertionSort (order · · ≠ .gt) := by
      rw [List.map_insertionSort among (order · · ≠ .gt) Subtype.val _ fun _ _ _ _ => Iff.rfl,
        List.attach_map_subtype_val]
    rw [← same, List.pairwise_map]
    exact sorted

open Classical in
/-- A sort may put these rows into this order, if it is one that sorting allows. -/
noncomputable def Qsort.such (order : Row → Row → Ordering) (rows result : List Row)
    (perm : result.Perm rows)
    (sorted : Consistent order rows → result.Pairwise (order · · ≠ .gt)) : Qsort Row where
  sort other given :=
    if other = order ∧ given = rows then result else (Qsort.stable Row).sort other given
  perm := by
    intro other given
    split
    next same => rw [same.2]; exact perm
    next => exact (Qsort.stable Row).perm other given
  sorted := by
    intro other given consistent
    split
    next same =>
      obtain ⟨rfl, rfl⟩ := same
      exact sorted consistent
    next => exact (Qsort.stable Row).sorted other given consistent

theorem Qsort.such_sort {order : Row → Row → Ordering} {rows result : List Row}
    (perm : result.Perm rows)
    (sorted : Consistent order rows → result.Pairwise (order · · ≠ .gt)) :
    (Qsort.such order rows result perm sorted).sort order rows = result :=
  if_pos ⟨rfl, rfl⟩

/-- Two rows of which one is asked for after the other come out in the wrong order, if they tie, or
the comparison is not consistent. -/
theorem exists_misplaced {order asked : Row → Row → Ordering} {rows : List Row} {x y : Row}
    (left : x ∈ rows) (right : y ∈ rows) (self : asked x x ≠ .gt) (later : asked x y = .gt)
    (loose : order x y ≠ .gt ∨ ¬ Consistent order rows) :
    ∃ result : List Row, result.Perm rows ∧
      (Consistent order rows → result.Pairwise (order · · ≠ .gt)) ∧
      ¬ result.Pairwise (asked · · ≠ .gt) := by
  classical
  have different : y ≠ x := by
    rintro rfl
    exact self later
  obtain ⟨rest, moved⟩ : ∃ rest, (x :: y :: rest).Perm rows := by
    have second : y ∈ rows.erase x := (List.mem_erase_of_ne different).2 right
    exact ⟨(rows.erase x).erase y,
      (((List.perm_cons_erase second).symm).cons x).trans (List.perm_cons_erase left).symm⟩
  rcases loose with tie | loose
  · refine ⟨(Qsort.stable Row).sort order (x :: y :: rest),
      ((Qsort.stable Row).perm _ _).trans moved, fun consistent => ?_, fun sorted => ?_⟩
    · exact (Qsort.stable Row).sorted _ _ (consistent.perm moved)
    · have kept : [x, y].Sublist ((Qsort.stable Row).sort order (x :: y :: rest)) :=
        List.pair_sublist_insertionSort tie
          (((List.nil_sublist rest).cons_cons y).cons_cons x)
      exact List.pairwise_pair.1 (sorted.sublist kept) later
  · refine ⟨x :: y :: rest, moved, fun consistent => absurd consistent loose, fun sorted => ?_⟩
    exact List.rel_of_pairwise_cons sorted List.mem_cons_self later

/-! ### Gathering -/

section Lists

variable {α : Type} (p q : α → Bool)

theorem splits_cons {P : List α → α → Prop} {x : α} {rest : List α} :
    (∀ before row after, x :: rest = before ++ row :: after → P before row) ↔
      P [] x ∧ ∀ before row after, rest = before ++ row :: after → P (x :: before) row := by
  constructor
  · intro all
    refine ⟨all [] x rest rfl, fun before row after split => all (x :: before) row after ?_⟩
    rw [split]
    rfl
  · rintro ⟨first, later⟩ before row after split
    cases before with
    | nil =>
      obtain ⟨rfl, rfl⟩ := List.cons.inj split
      exact first
    | cons head before =>
      obtain ⟨rfl, rest⟩ := List.cons.inj split
      exact later before row after rest

/-- The first ones of one kind are those of the other kind. -/
theorem take_filter_eq_iff (n : Nat) (rows : List α) :
    (rows.filter p).take n = rows.filter q ↔
      ∀ before row after, rows = before ++ row :: after →
        (q row = true ↔ (before.filter p).length < n ∧ p row = true) := by
  induction rows generalizing n with
  | nil => simp
  | cons x rest ih =>
    rw [splits_cons (P := fun before row => q row = true ↔
      (before.filter p).length < n ∧ p row = true)]
    cases taken : p x with
    | false =>
      simp only [List.filter_cons, taken, Bool.false_eq_true, if_false, and_false, iff_false,
        ← ih n]
      cases wanted : q x with
      | false => simp
      | true =>
        simp only [if_true, not_true, false_and, iff_false]
        intro same
        have member : x ∈ (rest.filter p).take n := by simp [same]
        have kept := List.of_mem_filter (List.mem_of_mem_take member)
        rw [taken] at kept
        cases kept
    | true =>
      cases n with
      | zero =>
        have none := ih 0
        simp only [List.take_zero, Nat.not_lt_zero, false_and, iff_false] at none ⊢
        rw [← none]
        cases wanted : q x <;> simp [wanted]
      | succ n =>
        have shift : ∀ before : List α,
            ((x :: before).filter p).length < n + 1 ↔ (before.filter p).length < n := by
          intro before
          simp [taken]
        simp only [shift, ← ih n]
        simp only [List.filter_cons, taken, if_true, List.take_succ_cons, List.filter_nil,
          List.length_nil, Nat.zero_lt_succ, and_true]
        cases wanted : q x with
        | true => simp
        | false =>
          simp only [Bool.false_eq_true, if_false, false_iff, not_true, false_and,
            iff_false]
          intro same
          have member : x ∈ rest.filter q := by simp [← same]
          have kept := List.of_mem_filter member
          rw [wanted] at kept
          cases kept

/-- A part of the rows that are wanted, and as many, is all of them. -/
theorem eq_filter_of_perm {part rows : List α} (sublist : part.Sublist rows)
    (same : part.Perm (rows.filter q)) : part = rows.filter q := by
  have kept : part.filter q = part := List.filter_eq_self.2 fun row member =>
    List.of_mem_filter (same.mem_iff.1 member)
  have within := sublist.filter q
  rw [kept] at within
  exact within.eq_of_length same.length_eq

end Lists

end HelixKit.Sorting
