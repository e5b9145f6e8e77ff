/-
Purpose: Runs of a deterministic machine through a list of operations, and what
  holds at every operation of a run.
Trusted boundary: none
-/
import Mathlib.Algebra.GroupWithZero.Nat
import Mathlib.Algebra.Ring.Int.Defs
import Mathlib.Data.List.Basic

namespace HelixKit.Runs

variable {State Op : Type*} (step : State → Op → State)

/-- The state a run ends in. -/
def run (state : State) (ops : List Op) : State :=
  ops.foldl step state

/-- `Condition` holds of every operation of a run, in the state it is made in. -/
def Along (Condition : State → Op → Prop) : State → List Op → Prop
  | _, [] => True
  | state, op :: rest => Condition state op ∧ Along Condition (step state op) rest

instance Along.decidable (Condition : State → Op → Prop)
    [∀ state op, Decidable (Condition state op)] :
    (state : State) → (ops : List Op) → Decidable (Along step Condition state ops)
  | _, [] => .isTrue trivial
  | state, op :: rest =>
    have := Along.decidable Condition (step state op) rest
    inferInstanceAs (Decidable (Condition state op ∧ Along step Condition (step state op) rest))

variable {step} {Condition Other : State → Op → Prop}

@[simp] theorem run_nil (state : State) : run step state [] = state := rfl

@[simp] theorem run_cons (state : State) (op : Op) (rest : List Op) :
    run step state (op :: rest) = run step (step state op) rest := rfl

theorem run_append (state : State) (ops more : List Op) :
    run step state (ops ++ more) = run step (run step state ops) more :=
  List.foldl_append

variable {ops : List Op}

theorem along_append {state : State} {more : List Op} :
    Along step Condition state (ops ++ more) ↔
      Along step Condition state ops ∧ Along step Condition (run step state ops) more := by
  induction ops generalizing state with
  | nil => simp [Along]
  | cons op rest ih =>
    simp only [List.cons_append, Along, run_cons, ih, and_assoc]

theorem along_iff_prefix {state : State} :
    Along step Condition state ops ↔
      ∀ before op after, ops = before ++ op :: after → Condition (run step state before) op := by
  constructor
  · rintro along before op after rfl
    exact (along_append.mp along).2.1
  · intro each
    induction ops generalizing state with
    | nil => trivial
    | cons op rest ih =>
      refine ⟨each [] op rest rfl, ih fun before later after shape => ?_⟩
      exact each (op :: before) later after (by rw [shape, List.cons_append])

/-- What every operation keeps, the run keeps. -/
theorem run_invariant (Inv : State → Prop) (keeps : ∀ state op, Inv state → Inv (step state op))
    {state : State} (start : Inv state) : Inv (run step state ops) := by
  induction ops generalizing state with
  | nil => exact start
  | cons op rest ih => exact ih (keeps state op start)

/-- A condition that the operations meet in every state. -/
theorem Along.of_forall {state : State}
    (all : ∀ op ∈ ops, ∀ state, Condition state op) : Along step Condition state ops := by
  induction ops generalizing state with
  | nil => trivial
  | cons op rest ih =>
    exact ⟨all op List.mem_cons_self state,
      ih fun other member => all other (List.mem_cons_of_mem op member)⟩

/-- What every operation under the condition keeps, the run keeps. -/
theorem Along.invariant (Inv : State → Prop)
    (keeps : ∀ state op, Inv state → Condition state op → Inv (step state op))
    {state : State} (start : Inv state) (along : Along step Condition state ops) :
    Inv (run step state ops) := by
  induction ops generalizing state with
  | nil => exact start
  | cons op rest ih =>
    obtain ⟨now, later⟩ := along
    exact ih (keeps state op start now) later

/-- What follows from an invariant and the condition holds at every operation. -/
theorem Along.always (Inv : State → Prop)
    (keeps : ∀ state op, Inv state → Condition state op → Inv (step state op))
    (implies : ∀ state op, Inv state → Condition state op → Other state op)
    {state : State} (start : Inv state) (along : Along step Condition state ops) :
    Along step Other state ops := by
  induction ops generalizing state with
  | nil => trivial
  | cons op rest ih =>
    obtain ⟨now, later⟩ := along
    exact ⟨implies state op start now, ih (keeps state op start now) later⟩

/-- Conditions that say the same under the invariant that one of them keeps hold of the same
runs. -/
theorem Along.congr (Inv : State → Prop)
    (keeps : ∀ state op, Inv state → Condition state op → Inv (step state op))
    (same : ∀ state op, Inv state → (Condition state op ↔ Other state op))
    {state : State} (start : Inv state) :
    Along step Condition state ops ↔ Along step Other state ops := by
  induction ops generalizing state with
  | nil => exact Iff.rfl
  | cons op rest ih =>
    rw [Along, Along, same state op start]
    refine and_congr_right fun now => ih ?_
    exact keeps state op start ((same state op start).mpr now)

/-- A run in which every operation lowers a measure is no longer than the measure. -/
theorem Along.bounded (Inv : State → Prop) (measure : State → Nat)
    (keeps : ∀ state op, Inv state → Condition state op → Inv (step state op))
    (lowers : ∀ state op, Inv state → Condition state op →
      measure (step state op) < measure state)
    {state : State} (start : Inv state) (along : Along step Condition state ops) :
    ops.length ≤ measure state := by
  induction ops generalizing state with
  | nil => exact Nat.zero_le _
  | cons op rest ih =>
    obtain ⟨now, later⟩ := along
    have bound := ih (keeps state op start now) later
    have lower := lowers state op start now
    simp only [List.length_cons]
    omega

/-- A loop ends in the round after too little is left, and until then takes away what each round
manages to: it ends exactly when that comes to be enough. -/
theorem drains_iff (left taken : Nat → Nat) {Ended : Nat → Prop} (Low : Nat → Prop)
    (running : ¬ Ended 0)
    (ends : ∀ i, ¬ Ended i → (Ended (i + 1) ↔ Low (left i)))
    (takes : ∀ i, ¬ Ended i → ¬ Ended (i + 1) → left (i + 1) + taken i = left i) :
    (∃ i, Ended i) ↔ ∃ i, Low (left 0 - ((List.range i).map taken).sum) := by
  have total : ∀ i, ((List.range (i + 1)).map taken).sum =
      ((List.range i).map taken).sum + taken i := by
    intro i
    rw [List.range_succ, List.map_append, List.sum_append, List.map_singleton, List.sum_singleton]
  have still : ∀ i, (∀ j ≤ i, ¬ Ended j) → left i + ((List.range i).map taken).sum = left 0 := by
    intro i before
    induction i with
    | zero => rfl
    | succ i ih =>
      have earlier := ih fun j within => before j (Nat.le_succ_of_le within)
      have round := takes i (before i (Nat.le_succ i)) (before (i + 1) (Nat.le_refl _))
      rw [total]
      omega
  have left_eq : ∀ i, (∀ j ≤ i, ¬ Ended j) → left i = left 0 - ((List.range i).map taken).sum := by
    intro i before
    have sum := still i before
    omega
  constructor
  · intro some_
    by_contra never
    have all : ∀ i, ∀ j ≤ i, ¬ Ended j := by
      intro i
      induction i with
      | zero =>
        intro j zero
        rwa [Nat.le_zero.mp zero]
      | succ i ih =>
        intro j within
        rcases Nat.le_succ_iff.mp within with earlier | rfl
        · exact ih j earlier
        · intro ended
          have low := (ends i (ih i (Nat.le_refl i))).mp ended
          rw [left_eq i ih] at low
          exact never ⟨i, low⟩
    obtain ⟨i, ended⟩ := some_
    exact all i i (Nat.le_refl i) ended
  · rintro ⟨i, low⟩
    by_contra never
    have running : ∀ j, ¬ Ended j := fun j ended => never ⟨j, ended⟩
    rw [← left_eq i fun j _ => running j] at low
    exact never ⟨i + 1, (ends i (running i)).mpr low⟩

end HelixKit.Runs
