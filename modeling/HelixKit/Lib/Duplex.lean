/-
Purpose: Two parties joined by a reliable FIFO channel in each direction, the
  histories of what each of them sent and received, and the assume-guarantee
  rule that proves an invariant of the pair from one contract for each party.
Trusted boundary: none
-/
import Mathlib.Data.List.Infix

namespace HelixKit.Duplex

variable {σ τ M : Type*}

/-- A party moves by itself or on the arrival of one message.  Either way it
may hand messages to its outgoing channel. -/
structure Party (σ M : Type*) where
  act : σ → List M → σ → Prop
  receive : σ → M → List M → σ → Prop

/-- Both parties and the messages travelling between them. -/
structure State (σ τ M : Type*) where
  left : σ
  right : τ
  toRight : List M := []
  toLeft : List M := []

/-- What each party has sent and received since the start. -/
structure Histories (M : Type*) where
  leftSent : List M := []
  leftReceived : List M := []
  rightSent : List M := []
  rightReceived : List M := []

/-- A channel of bounded capacity takes `out` only while it has room for it;
`none` is a channel without a bound. -/
def Fits (capacity : Option ℕ) (channel out : List M) : Prop :=
  out = [] ∨ ∀ bound ∈ capacity, channel.length + out.length ≤ bound

instance (capacity : Option ℕ) (channel out : List M) :
    Decidable (Fits capacity channel out) := by
  unfold Fits
  haveI : Decidable (out = []) := decidable_of_iff (out.isEmpty = true) List.isEmpty_iff
  cases capacity with
  | none => exact isTrue (Or.inr (by simp))
  | some bound =>
    exact decidable_of_iff (out = [] ∨ channel.length + out.length ≤ bound) (by simp)

@[simp] theorem fits_unbounded (channel out : List M) : Fits none channel out :=
  Or.inr (by simp)

@[simp] theorem fits_nil (capacity : Option ℕ) (channel : List M) :
    Fits capacity channel [] := Or.inl rfl

/-- One move of the pair: a party acts, or takes the oldest message that is on
its way to it. -/
inductive Step (P : Party σ M) (Q : Party τ M) (capacity : Option ℕ) :
    State σ τ M → Histories M → State σ τ M → Histories M → Prop where
  | leftAct {state : State σ τ M} {past : Histories M} {out : List M} {after : σ}
      (move : P.act state.left out after) (room : Fits capacity state.toRight out) :
      Step P Q capacity state past
        { state with left := after, toRight := state.toRight ++ out }
        { past with leftSent := past.leftSent ++ out }
  | rightAct {state : State σ τ M} {past : Histories M} {out : List M} {after : τ}
      (move : Q.act state.right out after) (room : Fits capacity state.toLeft out) :
      Step P Q capacity state past
        { state with right := after, toLeft := state.toLeft ++ out }
        { past with rightSent := past.rightSent ++ out }
  | leftReceive {state : State σ τ M} {past : Histories M} {message : M}
      {rest out : List M} {after : σ} (head : state.toLeft = message :: rest)
      (move : P.receive state.left message out after)
      (room : Fits capacity state.toRight out) :
      Step P Q capacity state past
        { state with
          left := after, toLeft := rest, toRight := state.toRight ++ out }
        { past with
          leftSent := past.leftSent ++ out
          leftReceived := past.leftReceived ++ [message] }
  | rightReceive {state : State σ τ M} {past : Histories M} {message : M}
      {rest out : List M} {after : τ} (head : state.toRight = message :: rest)
      (move : Q.receive state.right message out after)
      (room : Fits capacity state.toLeft out) :
      Step P Q capacity state past
        { state with
          right := after, toRight := rest, toLeft := state.toLeft ++ out }
        { past with
          rightSent := past.rightSent ++ out
          rightReceived := past.rightReceived ++ [message] }

/-- The states, with their histories, that a run from two given parties over
empty channels can reach. -/
inductive Run (P : Party σ M) (Q : Party τ M) (capacity : Option ℕ)
    (left : σ) (right : τ) : State σ τ M → Histories M → Prop where
  | start : Run P Q capacity left right { left, right } {}
  | next {state after : State σ τ M} {past past' : Histories M}
      (run : Run P Q capacity left right state past)
      (step : Step P Q capacity state past after past') :
      Run P Q capacity left right after past'

/-- A run all of whose steps lead to a state that meets `Keeps`. -/
inductive RunIn (P : Party σ M) (Q : Party τ M) (capacity : Option ℕ)
    (Keeps : State σ τ M → Prop) (left : σ) (right : τ) : State σ τ M → Histories M → Prop
  | start : RunIn P Q capacity Keeps left right { left, right } {}
  | next {state after : State σ τ M} {past past' : Histories M}
      (run : RunIn P Q capacity Keeps left right state past)
      (step : Step P Q capacity state past after past') (keeps : Keeps after) :
      RunIn P Q capacity Keeps left right after past'

/-- Exchange the names of the two sides. -/
def State.swap (state : State σ τ M) : State τ σ M :=
  { left := state.right, right := state.left,
    toRight := state.toLeft, toLeft := state.toRight }

def Histories.swap (past : Histories M) : Histories M :=
  { leftSent := past.rightSent, leftReceived := past.rightReceived,
    rightSent := past.leftSent, rightReceived := past.leftReceived }

section Runs

variable {P : Party σ M} {Q : Party τ M} {capacity : Option ℕ}
variable {left : σ} {right : τ} {state : State σ τ M} {past : Histories M}

theorem Step.swap {after : State σ τ M} {past' : Histories M}
    (step : Step P Q capacity state past after past') :
    Step Q P capacity state.swap past.swap after.swap past'.swap := by
  cases step with
  | leftAct move room =>
    exact @Step.rightAct _ _ _ Q P capacity state.swap past.swap _ _ move room
  | rightAct move room =>
    exact @Step.leftAct _ _ _ Q P capacity state.swap past.swap _ _ move room
  | leftReceive head move room =>
    exact @Step.rightReceive _ _ _ Q P capacity state.swap past.swap _ _ _ _ head move room
  | rightReceive head move room =>
    exact @Step.leftReceive _ _ _ Q P capacity state.swap past.swap _ _ _ _ head move room

/-- What holds of the left side of every run holds of the right side too. -/
theorem Run.swap (run : Run P Q capacity left right state past) :
    Run Q P capacity right left state.swap past.swap := by
  induction run with
  | start => exact .start
  | next _ step previous => exact .next previous step.swap

theorem RunIn.run {Keeps : State σ τ M → Prop}
    (run : RunIn P Q capacity Keeps left right state past) :
    Run P Q capacity left right state past := by
  induction run with
  | start => exact .start
  | next _ step _ previous => exact previous.next step

theorem RunIn.keeps {Keeps : State σ τ M → Prop} (start : Keeps { left, right })
    (run : RunIn P Q capacity Keeps left right state past) : Keeps state := by
  cases run with
  | start => exact start
  | next _ _ keeps => exact keeps

/-- Nothing is lost, duplicated or reordered on the way to the right. -/
theorem Run.leftFifo (run : Run P Q capacity left right state past) :
    past.leftSent = past.rightReceived ++ state.toRight := by
  induction run with
  | start => rfl
  | next _ step previous =>
    cases step with
    | leftAct => simp [previous]
    | rightAct => exact previous
    | leftReceive => simp [previous]
    | rightReceive head => simp [previous, head]

/-- Nothing is lost, duplicated or reordered on the way to the left. -/
theorem Run.rightFifo (run : Run P Q capacity left right state past) :
    past.rightSent = past.leftReceived ++ state.toLeft :=
  run.swap.leftFifo

theorem Run.rightReceived_le (run : Run P Q capacity left right state past) :
    past.rightReceived <+: past.leftSent :=
  ⟨state.toRight, run.leftFifo.symm⟩

theorem Run.leftReceived_le (run : Run P Q capacity left right state past) :
    past.leftReceived <+: past.rightSent :=
  ⟨state.toLeft, run.rightFifo.symm⟩

end Runs

/-- What a party may assume about the other end when its own histories are
`sent` and `received`: the peer meets its invariant, has received part of what
was sent, and has sent everything that arrived. -/
def Rely (PeerInv : τ → List M → List M → Prop) (sent received : List M) : Prop :=
  ∃ peer peerSent peerReceived,
    PeerInv peer peerSent peerReceived ∧
      peerReceived <+: sent ∧ received <+: peerSent

theorem Rely.mono {PeerInv Weaker : τ → List M → List M → Prop} {sent received : List M}
    (rely : Rely PeerInv sent received)
    (weaker : ∀ {peer peerSent peerReceived}, PeerInv peer peerSent peerReceived →
      Weaker peer peerSent peerReceived) : Rely Weaker sent received := by
  obtain ⟨peer, peerSent, peerReceived, inv, fromUs, toUs⟩ := rely
  exact ⟨peer, peerSent, peerReceived, weaker inv, fromUs, toUs⟩

/-- A party keeps `Inv` as long as its surroundings keep `Assumed`.  A move
may rely on the surroundings before it; an arrival also on what brought the
message. -/
structure Contract (party : Party σ M) (Inv : σ → List M → List M → Prop)
    (Assumed : List M → List M → Prop) : Prop where
  act : ∀ {before after : σ} {sent received out : List M},
    Inv before sent received → Assumed sent received →
      party.act before out after → Inv after (sent ++ out) received
  receive : ∀ {before after : σ} {sent received out : List M} {message : M},
    Inv before sent received → Assumed sent (received ++ [message]) →
      party.receive before message out after →
        Inv after (sent ++ out) (received ++ [message])

theorem Contract.mono {party : Party σ M} {Inv : σ → List M → List M → Prop}
    {Assumed Stronger : List M → List M → Prop} (contract : Contract party Inv Assumed)
    (weaker : ∀ {sent received}, Stronger sent received → Assumed sent received) :
    Contract party Inv Stronger where
  act inv assumed moved := contract.act inv (weaker assumed) moved
  receive inv assumed moved := contract.receive inv (weaker assumed) moved

/-- The assume-guarantee rule: each party may rely on the other's invariant
because a message is always sent before it arrives. -/
theorem Run.invariant {P : Party σ M} {Q : Party τ M} {capacity : Option ℕ}
    {left : σ} {right : τ} {state : State σ τ M} {past : Histories M}
    {LeftInv : σ → List M → List M → Prop} {RightInv : τ → List M → List M → Prop}
    (leftStart : LeftInv left [] []) (rightStart : RightInv right [] [])
    (leftContract : Contract P LeftInv (Rely RightInv))
    (rightContract : Contract Q RightInv (Rely LeftInv))
    (run : Run P Q capacity left right state past) :
    LeftInv state.left past.leftSent past.leftReceived ∧
      RightInv state.right past.rightSent past.rightReceived := by
  induction run with
  | start => exact ⟨leftStart, rightStart⟩
  | @next state after past past' run step previous =>
    obtain ⟨leftInv, rightInv⟩ := previous
    have leftRely : Rely RightInv past.leftSent past.leftReceived :=
      ⟨_, _, _, rightInv, run.rightReceived_le, run.leftReceived_le⟩
    have rightRely : Rely LeftInv past.rightSent past.rightReceived :=
      ⟨_, _, _, leftInv, run.leftReceived_le, run.rightReceived_le⟩
    cases step with
    | leftAct move => exact ⟨leftContract.act leftInv leftRely move, rightInv⟩
    | rightAct move => exact ⟨leftInv, rightContract.act rightInv rightRely move⟩
    | leftReceive head move =>
      refine ⟨leftContract.receive leftInv ?_ move, rightInv⟩
      refine ⟨_, _, _, rightInv, run.rightReceived_le, ?_⟩
      rw [run.rightFifo, head]
      simp
    | rightReceive head move =>
      refine ⟨leftInv, rightContract.receive rightInv ?_ move⟩
      refine ⟨_, _, _, leftInv, run.leftReceived_le, ?_⟩
      rw [run.leftFifo, head]
      simp

/-- Every move of `P` is one of `Q`, with the states read through `f`. -/
structure Party.Embeds (P : Party σ M) (Q : Party τ M) (f : σ → τ) : Prop where
  act : ∀ {before out after}, P.act before out after → Q.act (f before) out (f after)
  receive : ∀ {before message out after}, P.receive before message out after →
    Q.receive (f before) message out (f after)

def State.map {σ' τ' : Type*} (f : σ → σ') (g : τ → τ') (state : State σ τ M) :
    State σ' τ' M :=
  { state with left := f state.left, right := g state.right }

theorem Run.map {σ' τ' : Type*} {P : Party σ M} {Q : Party τ M} {P' : Party σ' M}
    {Q' : Party τ' M} {f : σ → σ'} {g : τ → τ'} {capacity : Option ℕ} {left : σ} {right : τ}
    {state : State σ τ M} {past : Histories M} (ours : P.Embeds P' f) (theirs : Q.Embeds Q' g)
    (run : Run P Q capacity left right state past) :
    Run P' Q' capacity (f left) (g right) (state.map f g) past := by
  induction run with
  | start => exact .start
  | next _ step previous =>
    cases step with
    | leftAct move room => exact previous.next (.leftAct (ours.act move) room)
    | rightAct move room => exact previous.next (.rightAct (theirs.act move) room)
    | leftReceive head move room =>
      exact previous.next (.leftReceive head (ours.receive move) room)
    | rightReceive head move room =>
      exact previous.next (.rightReceive head (theirs.receive move) room)

theorem RunIn.mono {P P' : Party σ M} {Q Q' : Party τ M} {capacity : Option ℕ}
    {Keeps : State σ τ M → Prop} {left : σ} {right : τ} {state : State σ τ M}
    {past : Histories M} (ours : P.Embeds P' id) (theirs : Q.Embeds Q' id)
    (run : RunIn P Q capacity Keeps left right state past) :
    RunIn P' Q' capacity Keeps left right state past := by
  induction run with
  | start => exact .start
  | next _ step keeps previous =>
    refine previous.next ?_ keeps
    cases step with
    | leftAct move room => exact .leftAct (ours.act move) room
    | rightAct move room => exact .rightAct (theirs.act move) room
    | leftReceive head move room => exact .leftReceive head (ours.receive move) room
    | rightReceive head move room => exact .rightReceive head (theirs.receive move) room

/-- A party whose moves can be computed: `Act` names what it may do by itself. -/
structure Machine (σ Act M : Type*) where
  act : σ → Act → Option (σ × List M)
  receive : σ → M → Option (σ × List M)

/-- A machine as a party, of which every move by itself meets `Meets`. -/
def Machine.party {Act : Type*} (machine : Machine σ Act M) (Meets : σ → Act → Prop) :
    Party σ M where
  act before out after := ∃ a, Meets before a ∧ machine.act before a = some (after, out)
  receive before message out after := machine.receive before message = some (after, out)

/-- The machine without the moves that `allows` refuses. -/
def Machine.restrict {Act : Type*} (machine : Machine σ Act M) (allows : σ → Act → Bool) :
    Machine σ Act M :=
  { machine with act := fun s a => if allows s a then machine.act s a else none }

theorem Machine.restrict_embeds {Act : Type*} {machine : Machine σ Act M}
    {allows : σ → Act → Bool} {Meets : σ → Act → Prop}
    (meets : ∀ s a, allows s a = true → Meets s a) :
    Party.Embeds ((machine.restrict allows).party fun _ _ => True) (machine.party Meets) id where
  act moved := by
    obtain ⟨a, -, moved⟩ := moved
    obtain ⟨allowed, moved⟩ := Option.ite_none_right_eq_some.mp moved
    exact ⟨a, meets _ a allowed, moved⟩
  receive moved := moved

/-- One line of a script for two machines. -/
inductive Turn (LeftAct RightAct : Type*) where
  | left (a : LeftAct)
  | right (a : RightAct)
  | toLeft
  | toRight

section Scripts

variable {LeftAct RightAct : Type*} (P : Machine σ LeftAct M) (Q : Machine τ RightAct M)
variable (capacity : Option ℕ)

/-- Play one line; `none` if the pair cannot make this move. -/
def turn (now : State σ τ M × Histories M) :
    Turn LeftAct RightAct → Option (State σ τ M × Histories M)
  | .left a =>
    (P.act now.1.left a).bind fun moved =>
      if Fits capacity now.1.toRight moved.2 then
        some
          ({ now.1 with left := moved.1, toRight := now.1.toRight ++ moved.2 },
            { now.2 with leftSent := now.2.leftSent ++ moved.2 })
      else none
  | .right a =>
    (Q.act now.1.right a).bind fun moved =>
      if Fits capacity now.1.toLeft moved.2 then
        some
          ({ now.1 with right := moved.1, toLeft := now.1.toLeft ++ moved.2 },
            { now.2 with rightSent := now.2.rightSent ++ moved.2 })
      else none
  | .toLeft =>
    match now.1.toLeft with
    | [] => none
    | message :: rest =>
      (P.receive now.1.left message).bind fun moved =>
        if Fits capacity now.1.toRight moved.2 then
          some
            ({ now.1 with
                left := moved.1, toLeft := rest
                toRight := now.1.toRight ++ moved.2 },
              { now.2 with
                leftSent := now.2.leftSent ++ moved.2
                leftReceived := now.2.leftReceived ++ [message] })
        else none
  | .toRight =>
    match now.1.toRight with
    | [] => none
    | message :: rest =>
      (Q.receive now.1.right message).bind fun moved =>
        if Fits capacity now.1.toLeft moved.2 then
          some
            ({ now.1 with
                right := moved.1, toRight := rest
                toLeft := now.1.toLeft ++ moved.2 },
              { now.2 with
                rightSent := now.2.rightSent ++ moved.2
                rightReceived := now.2.rightReceived ++ [message] })
        else none

/-- Play a whole script. -/
def play (now : State σ τ M × Histories M) :
    List (Turn LeftAct RightAct) → Option (State σ τ M × Histories M)
  | [] => some now
  | line :: rest => (turn P Q capacity now line).bind fun next => play next rest

variable {P Q capacity}

theorem turn_step {now next : State σ τ M × Histories M} {line : Turn LeftAct RightAct}
    (played : turn P Q capacity now line = some next) :
    Step (P.party fun _ _ => True) (Q.party fun _ _ => True) capacity now.1 now.2 next.1
      next.2 := by
  obtain ⟨state, past⟩ := now
  cases line with
  | left a =>
    obtain ⟨⟨after, out⟩, moved, sent⟩ := Option.bind_eq_some_iff.mp played
    split at sent <;> cases sent
    next room => exact .leftAct ⟨a, trivial, moved⟩ room
  | right a =>
    obtain ⟨⟨after, out⟩, moved, sent⟩ := Option.bind_eq_some_iff.mp played
    split at sent <;> cases sent
    next room => exact .rightAct ⟨a, trivial, moved⟩ room
  | toLeft =>
    simp only [turn] at played
    split at played
    · cases played
    next message rest head =>
      obtain ⟨⟨after, out⟩, moved, sent⟩ := Option.bind_eq_some_iff.mp played
      split at sent <;> cases sent
      next room => exact .leftReceive head moved room
  | toRight =>
    simp only [turn] at played
    split at played
    · cases played
    next message rest head =>
      obtain ⟨⟨after, out⟩, moved, sent⟩ := Option.bind_eq_some_iff.mp played
      split at sent <;> cases sent
      next room => exact .rightReceive head moved room

/-- What a script plays is a run. -/
theorem play_run {left : σ} {right : τ} {now next : State σ τ M × Histories M}
    {script : List (Turn LeftAct RightAct)}
    (run : Run (P.party fun _ _ => True) (Q.party fun _ _ => True) capacity left right
      now.1 now.2) (played : play P Q capacity now script = some next) :
    Run (P.party fun _ _ => True) (Q.party fun _ _ => True) capacity left right
      next.1 next.2 := by
  induction script generalizing now with
  | nil =>
    cases played
    exact run
  | cons line rest hypothesis =>
    obtain ⟨middle, first, later⟩ := Option.bind_eq_some_iff.mp played
    exact hypothesis (run.next (turn_step first)) later

variable (P Q capacity) in
/-- Play a whole script through states that meet `keeps`. -/
def playIn (keeps : State σ τ M → Bool) (now : State σ τ M × Histories M) :
    List (Turn LeftAct RightAct) → Option (State σ τ M × Histories M)
  | [] => some now
  | line :: rest =>
    (turn P Q capacity now line).bind fun next =>
      if keeps next.1 then playIn keeps next rest else none

theorem playIn_runIn {keeps : State σ τ M → Bool} {Keeps : State σ τ M → Prop} {left : σ}
    {right : τ} {now next : State σ τ M × Histories M} {script : List (Turn LeftAct RightAct)}
    (sound : ∀ state, keeps state = true → Keeps state)
    (run : RunIn (P.party fun _ _ => True) (Q.party fun _ _ => True) capacity Keeps left right
      now.1 now.2) (played : playIn P Q capacity keeps now script = some next) :
    RunIn (P.party fun _ _ => True) (Q.party fun _ _ => True) capacity Keeps left right
      next.1 next.2 := by
  induction script generalizing now with
  | nil =>
    cases played
    exact run
  | cons line rest hypothesis =>
    obtain ⟨middle, first, later⟩ := Option.bind_eq_some_iff.mp played
    obtain ⟨kept, later⟩ := Option.ite_none_right_eq_some.mp later
    exact hypothesis (run.next (turn_step first) (sound _ kept)) later

end Scripts

end HelixKit.Duplex
