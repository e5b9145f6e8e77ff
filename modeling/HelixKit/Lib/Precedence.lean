/-
Purpose: Relations that say what comes before what: cycles, and lists in which
  everything comes after what is before it.
Trusted boundary: none
-/
import Mathlib.Data.List.Nodup
import Mathlib.Data.Fintype.EquivFin
import Mathlib.Logic.Relation
import Mathlib.Order.WellFounded
import Mathlib.Data.Set.Finite.List

namespace HelixKit.Precedence

variable {α : Type*} {before : α → α → Prop}

/-- Something comes before itself. -/
def Cyclic (before : α → α → Prop) : Prop :=
  ∃ a, Relation.TransGen before a a

/-- Without a cycle, finitely many things have a first. -/
theorem exists_first (acyclic : ¬ Cyclic before) {items : List α} (nonempty : items ≠ []) :
    ∃ a ∈ items, ∀ b ∈ items, ¬ before b a := by
  let earlier : {a // a ∈ items} → {a // a ∈ items} → Prop :=
    fun a b => Relation.TransGen before a b
  have irrefl : Std.Irrefl earlier := ⟨fun a cycle => acyclic ⟨a, cycle⟩⟩
  have trans : IsTrans {a // a ∈ items} earlier := ⟨fun a b c => Relation.TransGen.trans⟩
  have finite : Finite {a // a ∈ items} := (List.finite_toSet items).to_subtype
  have wf : WellFounded earlier := Finite.wellFounded_of_trans_of_irrefl earlier
  obtain ⟨head, member⟩ := List.exists_mem_of_ne_nil items nonempty
  obtain ⟨first, -, least⟩ := wf.has_min Set.univ ⟨⟨head, member⟩, trivial⟩
  exact ⟨first, first.2, fun b inside now => least ⟨b, inside⟩ trivial (.single now)⟩

/-- Everything in the list comes after what is before it. -/
def Ordered (before : α → α → Prop) (order : List α) : Prop :=
  ∀ front a rest, order = front ++ a :: rest → ∀ b, before b a → b ∈ front

theorem Ordered.nil : Ordered before [] := by
  intro front a rest split
  simp at split

/-- What has everything before it in the list may come next. -/
theorem Ordered.snoc {order : List α} (ordered : Ordered before order) {a : α}
    (ready : ∀ b, before b a → b ∈ order) : Ordered before (order ++ [a]) := by
  intro front other rest split b earlier
  rcases List.eq_nil_or_concat rest with rfl | ⟨more, last, rfl⟩
  · obtain ⟨same, heads⟩ := List.append_inj' split rfl
    cases heads
    exact same ▸ ready b earlier
  · have longer : order ++ [a] = (front ++ other :: more) ++ [last] := by
      rw [split]
      simp
    exact ordered front other more (List.append_inj' longer rfl).1 b earlier

theorem Ordered.of_append {order more : List α} (ordered : Ordered before (order ++ more)) :
    Ordered before order := by
  intro front a rest split b earlier
  exact ordered front a (rest ++ more) (by simp [split]) b earlier

/-- An order of all that comes after something leaves no cycle. -/
theorem Ordered.acyclic {order : List α} (ordered : Ordered before order) (nodup : order.Nodup)
    (all : ∀ a b, before a b → b ∈ order) : ¬ Cyclic before := by
  classical
  have step : ∀ a b, before a b → order.idxOf a < order.idxOf b := by
    intro a b earlier
    obtain ⟨front, rest, split⟩ := List.append_of_mem (all a b earlier)
    have inFront : a ∈ front := ordered front b rest split a earlier
    have notFront : b ∉ front := by
      intro member
      rw [split, List.nodup_append] at nodup
      exact nodup.2.2 b member b List.mem_cons_self rfl
    have before : order.idxOf a < front.length := by
      rw [split, List.idxOf_append_of_mem inFront]
      exact List.idxOf_lt_length_of_mem inFront
    have after : front.length ≤ order.idxOf b := by
      rw [split, List.idxOf_append_of_notMem notFront]
      exact Nat.le_add_right front.length _
    exact before.trans_le after
  rintro ⟨a, cycle⟩
  have down : ∀ b, Relation.TransGen before a b → order.idxOf a < order.idxOf b := by
    intro b path
    induction path with
    | single now => exact step _ _ now
    | tail _ now ih => exact ih.trans (step _ _ now)
  exact lt_irrefl _ (down a cycle)

/-- What went on in order after things that the other list holds too may go on there. -/
theorem Ordered.resume {order done more : List α} (ordered : Ordered before order)
    (whole : Ordered before (done ++ more)) (held : ∀ a ∈ done, a ∈ order) :
    Ordered before (order ++ more) := by
  induction more using List.reverseRecOn with
  | nil => simpa using ordered
  | append_singleton more a ih =>
    have shorter : Ordered before (done ++ more) := by
      rw [← List.append_assoc] at whole
      exact whole.of_append
    rw [← List.append_assoc]
    apply (ih shorter).snoc
    intro b earlier
    have seen : b ∈ done ++ more := whole (done ++ more) a [] (by simp) b earlier
    rcases List.mem_append.mp seen with old | new
    · exact List.mem_append_left more (held b old)
    · exact List.mem_append_right order new

end HelixKit.Precedence
