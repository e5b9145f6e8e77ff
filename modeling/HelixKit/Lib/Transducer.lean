/-
Purpose: Machines that read a stream symbol by symbol and write as they go: what they
  write does not depend on how the stream is cut into pieces.
Trusted boundary: none
-/
import Mathlib.Data.List.Basic

namespace HelixKit.Transducers

/-- A machine that answers each symbol with some symbols. -/
structure Transducer (State Input Output : Type*) where
  step : State → Input → State × List Output

namespace Transducer

variable {State Other Input Middle Output : Type*}

/-- The state after a piece of the stream, and what was written for it. -/
def run (machine : Transducer State Input Output) (state : State) : List Input → State × List Output
  | [] => (state, [])
  | input :: rest =>
    ((machine.run (machine.step state input).1 rest).1,
      (machine.step state input).2 ++ (machine.run (machine.step state input).1 rest).2)

variable (machine : Transducer State Input Output)

@[simp] theorem run_nil (state : State) : machine.run state [] = (state, []) := rfl

theorem run_cons (state : State) (input : Input) (rest : List Input) :
    machine.run state (input :: rest) =
      ((machine.run (machine.step state input).1 rest).1,
        (machine.step state input).2 ++ (machine.run (machine.step state input).1 rest).2) := rfl

/-- Two pieces, one after the other. -/
theorem run_append (state : State) (piece more : List Input) :
    machine.run state (piece ++ more) =
      ((machine.run (machine.run state piece).1 more).1,
        (machine.run state piece).2 ++ (machine.run (machine.run state piece).1 more).2) := by
  induction piece generalizing state with
  | nil => rfl
  | cons input rest ih =>
    rw [List.cons_append, run_cons, ih, run_cons, List.append_assoc]

/-- The second machine reads what the first one writes. -/
def compose (first : Transducer State Input Middle) (second : Transducer Other Middle Output) :
    Transducer (State × Other) Input Output where
  step := fun (state, other) input =>
    (((first.step state input).1, (second.run other (first.step state input).2).1),
      (second.run other (first.step state input).2).2)

theorem run_compose (first : Transducer State Input Middle)
    (second : Transducer Other Middle Output) (state : State) (other : Other)
    (stream : List Input) :
    (first.compose second).run (state, other) stream =
      (((first.run state stream).1, (second.run other (first.run state stream).2).1),
        (second.run other (first.run state stream).2).2) := by
  induction stream generalizing state other with
  | nil => rfl
  | cons input rest ih =>
    rw [run_cons, run_cons, second.run_append, compose]
    simp only
    rw [← compose, ih]

end Transducer

end HelixKit.Transducers
