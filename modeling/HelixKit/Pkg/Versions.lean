/-
Purpose: Versions are ordered by their components, and the versions that meet a constraint follow
  that order.
Trusted boundary: none
Main exports: versions_ordered
-/
import HelixKit.Pkg.Archive
import Mathlib.Data.List.GetD
import Mathlib.Order.PiLex

namespace HelixKit.Pkg

/-! ### Comparing -/

theorem foldl_then_eq_eq (compared : ℕ → Ordering) (n : ℕ) :
    (List.range n).foldl (fun (order : Ordering) i => order.then (compared i)) .eq = .eq ↔
      ∀ i < n, compared i = .eq := by
  induction n with
  | zero => simp
  | succ n ih =>
    rw [List.range_succ, List.foldl_append, List.foldl_cons, List.foldl_nil, Ordering.then_eq_eq,
      ih]
    constructor
    · rintro ⟨before, last⟩ i below
      obtain earlier | rfl := Nat.lt_succ_iff_lt_or_eq.mp below
      · exact before i earlier
      · exact last
    · exact fun all => ⟨fun i below => all i (by omega), all n (by omega)⟩

/-- A sequence of comparisons is decided by the first that does not find its parts equal. -/
theorem foldl_then_eq (compared : ℕ → Ordering) (n : ℕ) {decided : Ordering}
    (unequal : decided ≠ .eq) :
    (List.range n).foldl (fun (order : Ordering) i => order.then (compared i)) .eq = decided ↔
      ∃ i < n, (∀ j < i, compared j = .eq) ∧ compared i = decided := by
  induction n with
  | zero => simp [unequal.symm]
  | succ n ih =>
    rw [List.range_succ, List.foldl_append, List.foldl_cons, List.foldl_nil]
    have step : ∀ order : Ordering, order.then (compared n) = decided ↔
        order = decided ∨ order = .eq ∧ compared n = decided := by
      intro order
      cases order <;> simp [unequal.symm]
    rw [step, ih, foldl_then_eq_eq]
    constructor
    · rintro (⟨i, below, equal, same⟩ | ⟨equal, same⟩)
      · exact ⟨i, by omega, equal, same⟩
      · exact ⟨n, by omega, equal, same⟩
    · rintro ⟨i, below, equal, same⟩
      obtain earlier | rfl := Nat.lt_succ_iff_lt_or_eq.mp below
      · exact .inl ⟨i, earlier, equal, same⟩
      · exact .inr ⟨equal, same⟩

/-- The components of a version, zero after the last, in the lexicographic order. -/
def Version.components (v : Version) : Lex (ℕ → ℕ) := toLex fun i => v.getD i 0

theorem getD_of_length_le {v : Version} {i : ℕ} (past : v.length ≤ i) : v.getD i 0 = 0 :=
  List.getD_eq_default v 0 past

theorem compare_eq_lt {a b : Version} : a.compare b = .lt ↔ a.components < b.components := by
  rw [Version.compare, foldl_then_eq _ _ (by decide)]
  constructor
  · rintro ⟨i, _, equal, less⟩
    exact ⟨i, fun j before => Nat.compare_eq_eq.mp (equal j before), Nat.compare_eq_lt.mp less⟩
  · rintro ⟨i, equal, less⟩
    have within : i < max a.length b.length := by
      by_contra past
      have left := getD_of_length_le (v := a) (i := i) (by omega)
      have right := getD_of_length_le (v := b) (i := i) (by omega)
      change a.getD i 0 < b.getD i 0 at less
      omega
    exact ⟨i, within, fun j before => Nat.compare_eq_eq.mpr (equal j before),
      Nat.compare_eq_lt.mpr less⟩

theorem compare_swap (a b : Version) : b.compare a = (a.compare b).swap := by
  have swapped : ∀ (places : List ℕ) (order : Ordering),
      places.foldl (fun order i => order.then (Ord.compare (b.getD i 0) (a.getD i 0))) order.swap =
        (places.foldl (fun order i => order.then (Ord.compare (a.getD i 0) (b.getD i 0)))
          order).swap := by
    intro places
    induction places with
    | nil => exact fun _ => rfl
    | cons i rest ih =>
      intro order
      rw [List.foldl_cons, List.foldl_cons, ← ih, Ordering.swap_then, Nat.compare_swap]
  rw [Version.compare, Version.compare, max_comm]
  exact swapped _ .eq

theorem compare_eq_gt {a b : Version} : a.compare b = .gt ↔ b.components < a.components := by
  rw [← compare_eq_lt, compare_swap a b]
  cases a.compare b <;> simp

theorem not_components_lt {a b : Version} :
    ¬ b.components < a.components ↔ a.components ≤ b.components :=
  not_lt

theorem compare_eq_eq {a b : Version} : a.compare b = .eq ↔ a.components = b.components := by
  have equal : a.components = b.components ↔
      ¬ b.components < a.components ∧ ¬ a.components < b.components := by
    rw [not_components_lt, not_components_lt]
    exact le_antisymm_iff
  rw [equal, ← compare_eq_gt, ← compare_eq_lt]
  cases a.compare b <;> simp

/-- Two versions have the same components exactly when zeros after the last make them one. -/
theorem components_eq_iff {a b : Version} :
    a.components = b.components ↔
      ∃ m n, a ++ List.replicate m 0 = b ++ List.replicate n 0 := by
  constructor
  · intro same
    have equal : ∀ i, a.getD i 0 = b.getD i 0 := fun i => congrFun same i
    refine ⟨b.length - a.length, a.length - b.length, List.ext_getElem ?_ ?_⟩
    · simp only [List.length_append, List.length_replicate]
      omega
    · intro i left right
      have padded : ∀ (v : Version) n (inside : i < (v ++ List.replicate n 0).length),
          (v ++ List.replicate n 0)[i] = v.getD i 0 := by
        intro v n inside
        by_cases short : i < v.length
        · rw [List.getElem_append_left short, List.getD_eq_getElem v 0 short]
        · rw [List.getElem_append_right (by omega), List.getElem_replicate,
            getD_of_length_le (by omega)]
      rw [padded, padded, equal]
  · rintro ⟨m, n, same⟩
    have padded : ∀ (v : Version) n i, (v ++ List.replicate n 0).getD i 0 = v.getD i 0 := by
      intro v n i
      by_cases short : i < v.length
      · rw [List.getD_append v _ 0 i short]
      · rw [List.getD_append_right v _ 0 i (by omega), getD_of_length_le (v := v) (by omega)]
        simp
    funext i
    exact (padded a m i).symm.trans ((congrArg (·.getD i 0) same).trans (padded b n i))

/-- No component of the first version decides that it is the later one. -/
def Version.Le (a b : Version) : Prop := a.compare b ≠ .gt

theorem Version.le_iff {a b : Version} : a.Le b ↔ a.components ≤ b.components := by
  rw [Version.Le, Ne, compare_eq_gt, not_components_lt]

/-! ### Constraints -/

/-- Whether a version meets a constraint follows the order of versions. -/
structure Dependency.Monotone (d : Dependency) : Prop where
  upward : d.op = some .ge ∨ d.op = some .gt → ∀ {s t : String} {v w : Version},
    parseVersion s = some v → parseVersion t = some w → v.Le w →
      d.satisfiedBy s = true → d.satisfiedBy t = true
  downward : d.op = some .le ∨ d.op = some .lt → ∀ {s t : String} {v w : Version},
    parseVersion s = some v → parseVersion t = some w → w.Le v →
      d.satisfiedBy s = true → d.satisfiedBy t = true
  exact_ : d.op = some .eq → ∀ {s : String} {v : Version}, parseVersion s = some v →
    (d.satisfiedBy s = true ↔ ({ d with op := some .ge } : Dependency).satisfiedBy s = true ∧
      ({ d with op := some .le } : Dependency).satisfiedBy s = true)

section Meets

variable {d : Dependency} {s : String} {v : Version}

theorem satisfiedBy_ge (op : d.op = some .ge) (parsed : parseVersion s = some v) :
    d.satisfiedBy s = true ↔ d.version.components ≤ v.components := by
  rw [← not_components_lt, ← compare_eq_lt]
  simp [Dependency.satisfiedBy, op, parsed]

theorem satisfiedBy_gt (op : d.op = some .gt) (parsed : parseVersion s = some v) :
    d.satisfiedBy s = true ↔ d.version.components < v.components := by
  rw [← compare_eq_gt]
  simp [Dependency.satisfiedBy, op, parsed]

theorem satisfiedBy_le (op : d.op = some .le) (parsed : parseVersion s = some v) :
    d.satisfiedBy s = true ↔ v.components ≤ d.version.components := by
  rw [← not_components_lt, ← compare_eq_gt]
  simp [Dependency.satisfiedBy, op, parsed]

theorem satisfiedBy_lt (op : d.op = some .lt) (parsed : parseVersion s = some v) :
    d.satisfiedBy s = true ↔ v.components < d.version.components := by
  rw [← compare_eq_lt]
  simp [Dependency.satisfiedBy, op, parsed]

theorem satisfiedBy_eq (op : d.op = some .eq) (parsed : parseVersion s = some v) :
    d.satisfiedBy s = true ↔ v.components = d.version.components := by
  rw [← compare_eq_eq]
  simp [Dependency.satisfiedBy, op, parsed]

end Meets

theorem Dependency.monotone (d : Dependency) : d.Monotone where
  upward := by
    rintro (op | op) s t v w first second later met
    · rw [satisfiedBy_ge op first] at met
      rw [satisfiedBy_ge op second]
      exact met.trans (Version.le_iff.mp later)
    · rw [satisfiedBy_gt op first] at met
      rw [satisfiedBy_gt op second]
      exact met.trans_le (Version.le_iff.mp later)
  downward := by
    rintro (op | op) s t v w first second earlier met
    · rw [satisfiedBy_le op first] at met
      rw [satisfiedBy_le op second]
      exact (Version.le_iff.mp earlier).trans met
    · rw [satisfiedBy_lt op first] at met
      rw [satisfiedBy_lt op second]
      exact (Version.le_iff.mp earlier).trans_lt met
  exact_ := by
    intro op s v parsed
    rw [satisfiedBy_eq op parsed, satisfiedBy_ge rfl parsed, satisfiedBy_le rfl parsed,
      le_antisymm_iff, and_comm]

/-- Comparing versions is a total preorder whose equivalence leaves out zeros at the end, and the
versions that meet a constraint are closed under it. -/
theorem versions_ordered :
    (∀ a b : Version, a.Le b ∨ b.Le a) ∧
    (∀ a b c : Version, a.Le b → b.Le c → a.Le c) ∧
    (∀ a b : Version, (a.compare b = .eq ↔ a.Le b ∧ b.Le a) ∧
      (a.compare b = .eq ↔ ∃ m n, a ++ List.replicate m 0 = b ++ List.replicate n 0)) ∧
    ∀ spec d, parseDependency spec = .ok d → d.Monotone := by
  refine ⟨fun a b => ?_, fun a b c => ?_, fun a b => ⟨?_, ?_⟩, fun _ d _ => d.monotone⟩
  · rw [Version.le_iff, Version.le_iff]
    exact le_total _ _
  · rw [Version.le_iff, Version.le_iff, Version.le_iff]
    exact le_trans
  · rw [compare_eq_eq, Version.le_iff, Version.le_iff, le_antisymm_iff]
  · rw [compare_eq_eq, components_eq_iff]

end HelixKit.Pkg
