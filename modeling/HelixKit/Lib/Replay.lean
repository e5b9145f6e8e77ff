/-
Purpose: Programs of durable steps: the value of a step is stored under its id and occurrence, and an
  attempt that starts over takes it from there.
Trusted boundary: none
-/
import HelixKit.Lib.Precedence
import Mathlib.Algebra.GroupWithZero.Nat
import Mathlib.Algebra.Ring.Int.Defs
import Mathlib.Logic.Function.Basic

namespace HelixKit.Replay

open HelixKit.Precedence

/-- A program that takes one durable step after the other. Executing a step gives some
events and then its value, or a failure, which the program does not catch. -/
inductive Program (Id Event Value Failure Result : Type) where
  | done (result : Except Failure Result)
  | step (id : Id) (events : List Event) (value : Except Failure Value)
      (next : Value → Program Id Event Value Failure Result)

/-- An executed step. -/
structure Call (Id Event Value Failure : Type) where
  id : Id
  events : List Event
  value : Except Failure Value

/-- What is kept from one attempt to the next, the `journal`, with the events of all
attempts so far; and of the present attempt the steps it has taken under each id and the
`fuel`: it is interrupted when that is used up. -/
structure Session (Id Event Value : Type) where
  journal : Id → Nat → Option Value := fun _ _ => none
  events : List Event := []
  counts : Id → Nat := fun _ => 0
  fuel : Nat := 0

variable {Id Event Value Failure Result : Type}

/-- The run that is not interrupted. -/
def Program.once : Program Id Event Value Failure Result → List Event × Except Failure Result
  | .done result => ([], result)
  | .step _ events (.error failure) _ => (events, .error failure)
  | .step _ events (.ok value) next => (events ++ (next value).once.1, (next value).once.2)

/-- The steps of the run that is not interrupted. -/
def Program.calls : Program Id Event Value Failure Result → List (Call Id Event Value Failure)
  | .done _ => []
  | .step id events (.error failure) _ => [⟨id, events, .error failure⟩]
  | .step id events (.ok value) next => ⟨id, events, .ok value⟩ :: (next value).calls

/-- The program goes on from the stored value of a step as from the value itself. -/
def Program.Lossless (encode : Value → Value) : Program Id Event Value Failure Result → Prop
  | .done _ => True
  | .step _ _ (.error _) _ => True
  | .step _ _ (.ok value) next => next (encode value) = next value ∧ (next value).Lossless encode

def eventsOf (calls : List (Call Id Event Value Failure)) : List Event :=
  calls.flatMap (·.events)

@[simp] theorem eventsOf_append (front rest : List (Call Id Event Value Failure)) :
    eventsOf (front ++ rest) = eventsOf front ++ eventsOf rest :=
  List.flatMap_append

@[simp] theorem eventsOf_cons (call : Call Id Event Value Failure)
    (rest : List (Call Id Event Value Failure)) :
    eventsOf (call :: rest) = call.events ++ eventsOf rest := rfl

@[simp] theorem eventsOf_nil : eventsOf ([] : List (Call Id Event Value Failure)) = [] := rfl

theorem Program.once_events (program : Program Id Event Value Failure Result) :
    program.once.1 = eventsOf program.calls := by
  induction program with
  | done result => rfl
  | step id events value next ih =>
    cases value with
    | error failure => simp [Program.once, Program.calls]
    | ok value => simp [Program.once, Program.calls, ih]

/-- The fuel that suffices for the steps. -/
def cost (calls : List (Call Id Event Value Failure)) : Nat :=
  (calls.map fun call => call.events.length + 1).sum

/-- The events are those of the whole run in stretches, each begun where everything
before it had happened. -/
inductive Resumed (whole : List Event) : List Event → Prop where
  | start : Resumed whole []
  | go {events front more rest : List Event} (resumed : Resumed whole events)
      (split : whole = front ++ more ++ rest) (past : front ⊆ events) :
      Resumed whole (events ++ more)

theorem Resumed.subset {whole events : List Event} (resumed : Resumed whole events) :
    events ⊆ whole := by
  induction resumed with
  | start => exact List.nil_subset whole
  | go resumed split past ih =>
    intro event member
    rcases List.mem_append.mp member with old | new
    · exact ih old
    · simp [split, new]

/-- What comes after what is before it in the whole run does so in all attempts. -/
theorem Resumed.ordered {α : Type*} {before : α → α → Prop} {key : Event → α}
    {whole events : List Event} (resumed : Resumed whole events)
    (ordered : Ordered before (whole.map key)) : Ordered before (events.map key) := by
  induction resumed with
  | start => exact Ordered.nil
  | go resumed split past ih =>
    rw [List.map_append]
    apply ih.resume _ (List.map_subset key past)
    rw [← List.map_append]
    rw [split, List.map_append] at ordered
    exact ordered.of_append

variable [DecidableEq Id]

def Session.count (session : Session Id Event Value) (id : Id) : Session Id Event Value :=
  { session with counts := Function.update session.counts id (session.counts id + 1) }

/-- The interruption comes after so many of the events of a step. -/
def Session.interrupt (session : Session Id Event Value) (events : List Event) :
    Session Id Event Value :=
  { session with events := session.events ++ events.take session.fuel }

def Session.perform (session : Session Id Event Value) (events : List Event) :
    Session Id Event Value :=
  { session with
    events := session.events ++ events
    fuel := session.fuel - (events.length + 1) }

def Session.store (session : Session Id Event Value) (id : Id) (value : Value) :
    Session Id Event Value :=
  { session with
    journal := Function.update session.journal id
      (Function.update (session.journal id) (session.counts id) (some value)) }

/-- An attempt, to its end or an interruption. -/
def Program.attempt (encode : Value → Value) :
    Program Id Event Value Failure Result → Session Id Event Value →
      Session Id Event Value × Option (Except Failure Result)
  | .done result, session => (session, some result)
  | .step id events value next, session =>
    match session.journal id (session.counts id) with
    | some stored => (next stored).attempt encode (session.count id)
    | none =>
      if session.fuel ≤ events.length then (session.interrupt events, none)
      else
        match value with
        | .error failure => (session.perform events, some (.error failure))
        | .ok value =>
          (next value).attempt encode
            (((session.perform events).store id (encode value)).count id)

/-- A new attempt, with so much fuel. -/
def Program.restart (encode : Value → Value) (program : Program Id Event Value Failure Result)
    (session : Session Id Event Value) (fuel : Nat) :
    Session Id Event Value × Option (Except Failure Result) :=
  program.attempt encode
    { session with
      counts := fun _ => 0
      fuel := fuel }

/-- The session after attempts with the given fuel each. -/
def Program.attempts (encode : Value → Value) (program : Program Id Event Value Failure Result)
    (fuels : List Nat) : Session Id Event Value :=
  fuels.foldl (fun session fuel => (program.restart encode session fuel).1) {}

/-! ### Occurrences -/

/-- How many steps of the id there are. -/
def occurrences (id : Id) (calls : List (Call Id Event Value Failure)) : Nat :=
  calls.countP (·.id = id)

theorem occurrences_append (id : Id) (front rest : List (Call Id Event Value Failure)) :
    occurrences id (front ++ rest) = occurrences id front + occurrences id rest :=
  List.countP_append

/-- Of a step that comes later there are more before it. -/
theorem occurrences_lt (front middle : List (Call Id Event Value Failure))
    (call : Call Id Event Value Failure) :
    occurrences call.id front < occurrences call.id (front ++ call :: middle) := by
  simp only [occurrences, List.countP_append, List.countP_cons, decide_true, if_true]
  omega

/-- An id and its occurrence say which step it is. -/
theorem occurrence_unique {front front' rest rest' : List (Call Id Event Value Failure)}
    {call call' : Call Id Event Value Failure}
    (same : front ++ call :: rest = front' ++ call' :: rest') (id : call.id = call'.id)
    (count : occurrences call.id front = occurrences call'.id front') :
    front = front' ∧ call = call' := by
  rcases List.append_eq_append_iff.mp same with ⟨more, rfl, tails⟩ | ⟨more, rfl, tails⟩
  · cases more with
    | nil =>
      cases tails
      exact ⟨(List.append_nil front).symm, rfl⟩
    | cons first middle =>
      cases tails
      have later := occurrences_lt front middle call
      rw [id] at later count
      omega
  · cases more with
    | nil =>
      cases tails
      exact ⟨List.append_nil front', rfl⟩
    | cons first middle =>
      cases tails
      have later := occurrences_lt front' middle call'
      rw [← id] at later count
      omega

/-! ### Sound sessions -/

/-- What an attempt may rely on. What the journal has for a step of the run is the
stored value of that step, whose events have happened; and the events are those of the
run, as often as attempts came through them. -/
structure Session.Sound (encode : Value → Value) (all : List (Call Id Event Value Failure))
    (session : Session Id Event Value) : Prop where
  journal : ∀ front call rest, all = front ++ call :: rest → ∀ stored,
    session.journal call.id (occurrences call.id front) = some stored →
      call.value.map encode = .ok stored ∧ call.events ⊆ session.events
  resumed : Resumed (eventsOf all) session.events

/-- The attempt has come through the first steps. -/
structure Session.At (encode : Value → Value) (all front : List (Call Id Event Value Failure))
    (session : Session Id Event Value) : Prop extends session.Sound encode all where
  counts : ∀ id, session.counts id = occurrences id front
  past : eventsOf front ⊆ session.events

variable {encode : Value → Value} {all front rest : List (Call Id Event Value Failure)}
  {call : Call Id Event Value Failure} {session : Session Id Event Value}

theorem count_counts (counts : ∀ id, session.counts id = occurrences id front)
    (call : Call Id Event Value Failure) (id : Id) :
    (session.count call.id).counts id = occurrences id (front ++ [call]) := by
  rw [occurrences_append, ← counts]
  by_cases here : call.id = id
  · subst here
    simp [Session.count, occurrences]
  · simp [Session.count, occurrences, here, Function.update_of_ne (Ne.symm here)]

/-- A step whose value is in the journal. -/
theorem Session.At.skip (here : session.At encode all front) (split : all = front ++ call :: rest)
    {stored : Value} (known : session.journal call.id (session.counts call.id) = some stored) :
    call.value.map encode = .ok stored ∧ (session.count call.id).At encode all (front ++ [call]) := by
  rw [here.counts] at known
  obtain ⟨value, happened⟩ := here.journal front call rest split stored known
  refine ⟨value, ⟨⟨here.journal, here.resumed⟩, count_counts here.counts call, ?_⟩⟩
  simpa using ⟨here.past, happened⟩

/-- Some of the events of the next step happen. -/
theorem Session.At.resume (here : session.At encode all front) (split : all = front ++ call :: rest)
    {first last : List Event} (events : call.events = first ++ last) :
    Resumed (eventsOf all) (session.events ++ first) := by
  have stretch : eventsOf all = eventsOf front ++ first ++ (last ++ eventsOf rest) := by
    simp [split, events]
  exact here.resumed.go stretch here.past

theorem Session.Sound.grow (sound : session.Sound encode all) {more : List Event}
    (resumed : Resumed (eventsOf all) (session.events ++ more))
    {after : Session Id Event Value} (journal : after.journal = session.journal)
    (events : after.events = session.events ++ more) : after.Sound encode all where
  journal := by
    intro front call rest split stored known
    rw [journal] at known
    obtain ⟨value, happened⟩ := sound.journal front call rest split stored known
    rw [events]
    exact ⟨value, List.subset_append_of_subset_left more happened⟩
  resumed := events ▸ resumed

/-- The events of a step that is executed. -/
theorem Session.At.perform (here : session.At encode all front)
    (split : all = front ++ call :: rest) :
    (session.perform call.events).Sound encode all ∧
      eventsOf (front ++ [call]) ⊆ (session.perform call.events).events := by
  refine ⟨here.toSound.grow (here.resume split (List.append_nil call.events).symm) rfl rfl, ?_⟩
  rw [eventsOf_append]
  apply List.append_subset.mpr
  exact ⟨List.subset_append_of_subset_left _ here.past, by simp [Session.perform]⟩

theorem store_journal (session : Session Id Event Value) (id : Id) (value : Value) (other : Id)
    (count : Nat) :
    (session.store id value).journal other count =
      if other = id ∧ count = session.counts id then some value else session.journal other count := by
  by_cases same : other = id
  · subst same
    by_cases now : count = session.counts other <;> simp [Session.store, now]
  · simp [Session.store, same]

/-- A step that is executed and has a value. -/
theorem Session.At.pass (here : session.At encode all front) (split : all = front ++ call :: rest)
    {value : Value} (result : call.value = .ok value) :
    (((session.perform call.events).store call.id (encode value)).count call.id).At encode all
      (front ++ [call]) := by
  obtain ⟨grown, past⟩ := here.perform split
  refine ⟨⟨?_, grown.resumed⟩, count_counts here.counts call, past⟩
  intro front' call' rest' split' stored known
  have journal := store_journal (session.perform call.events) call.id (encode value) call'.id
    (occurrences call'.id front')
  rw [show (((session.perform call.events).store call.id (encode value)).count call.id).journal
    call'.id (occurrences call'.id front') = _ from journal] at known
  split at known
  next this =>
    have count : occurrences call'.id front' = occurrences call.id front :=
      this.2.trans (here.counts call.id)
    obtain ⟨rfl, rfl⟩ := occurrence_unique (split'.symm.trans split) this.1 count
    cases known
    exact ⟨by simp [result, Except.map], List.subset_append_right _ _⟩
  · exact grown.journal front' call' rest' split' stored known

theorem Session.Sound.restart (sound : session.Sound encode all) (fuel : Nat) :
    ({ session with
      counts := fun _ => 0
      fuel := fuel } : Session Id Event Value).At encode all [] where
  journal := sound.journal
  resumed := sound.resumed
  counts := fun _ => rfl
  past := List.nil_subset _

theorem Session.Sound.start : ({} : Session Id Event Value).Sound encode all where
  journal := by
    intro front call rest split stored known
    cases known
  resumed := .start

/-! ### Attempts -/

/-- What an attempt comes to: it ends as the run that is not interrupted, and then all
its events have happened; or it is interrupted, for want of fuel. -/
structure Agrees (encode : Value → Value) (all : List (Call Id Event Value Failure))
    (ending : Except Failure Result) (needed fuel : Nat)
    (outcome : Session Id Event Value × Option (Except Failure Result)) : Prop where
  sound : outcome.1.Sound encode all
  ends : ∀ result, outcome.2 = some result → result = ending ∧ eventsOf all ⊆ outcome.1.events
  interrupted : outcome.2 = none → fuel < needed

/-- From the steps after a step to those from it on. -/
theorem Agrees.weaken {ending : Except Failure Result} {needed needed' fuel fuel' : Nat}
    {outcome : Session Id Event Value × Option (Except Failure Result)}
    (agrees : Agrees encode all ending needed fuel outcome)
    (bound : fuel < needed → fuel' < needed') : Agrees encode all ending needed' fuel' outcome :=
  ⟨agrees.sound, agrees.ends, fun stopped => bound (agrees.interrupted stopped)⟩

theorem Session.At.agrees_interrupt (here : session.At encode all front)
    (split : all = front ++ call :: rest) (short : session.fuel ≤ call.events.length)
    (ending : Except Failure Result) :
    Agrees encode all ending (cost (call :: rest)) session.fuel
      (session.interrupt call.events, none) where
  sound := by
    have events := (List.take_append_drop session.fuel call.events).symm
    exact here.toSound.grow (here.resume split events) rfl rfl
  ends := by
    intro result ended
    cases ended
  interrupted := by
    intro _
    simp only [cost, List.map_cons, List.sum_cons]
    omega

/-- An attempt at the rest of a program, after the first steps. -/
theorem Program.attempt_agrees (program : Program Id Event Value Failure Result)
    (lossless : program.Lossless encode) (here : session.At encode all front)
    (split : all = front ++ program.calls) :
    Agrees encode all program.once.2 (cost program.calls) session.fuel
      (program.attempt encode session) := by
  induction program generalizing session front with
  | done result =>
    have past := here.past
    simp only [Program.calls, List.append_nil] at split
    subst split
    exact ⟨here.toSound, fun other same => ⟨by cases same; rfl, past⟩, by simp [Program.attempt]⟩
  | step id events value next ih =>
    cases value with
    | error failure =>
      cases journal : session.journal id (session.counts id) with
      | some stored => cases (here.skip split journal).1
      | none =>
        rw [Program.attempt, journal]
        by_cases short : session.fuel ≤ events.length
        · simp only [if_pos short]
          exact here.agrees_interrupt split short (.error failure)
        · simp only [if_neg short]
          obtain ⟨sound, past⟩ := here.perform split
          refine ⟨sound, fun result ended => ?_, fun stopped => by cases stopped⟩
          cases ended
          exact ⟨rfl, split ▸ past⟩
    | ok value =>
      obtain ⟨same, later⟩ := lossless
      have split' : all = front ++ [⟨id, events, .ok value⟩] ++ (next value).calls := by
        simp [split, Program.calls]
      have needed : cost (Program.step id events (.ok value) next).calls =
          events.length + 1 + cost (next value).calls := rfl
      cases journal : session.journal id (session.counts id) with
      | some stored =>
        obtain ⟨encoded, past⟩ := here.skip split journal
        cases encoded
        rw [Program.attempt, journal]
        simp only [same]
        apply (ih value later past split').weaken
        intro short
        rw [needed]
        exact Nat.lt_add_left _ short
      | none =>
        rw [Program.attempt, journal]
        by_cases short : session.fuel ≤ events.length
        · simp only [if_pos short]
          exact here.agrees_interrupt split short _
        · simp only [if_neg short]
          apply (ih value later (here.pass split rfl) split').weaken
          intro less
          have left : (((session.perform events).store id (encode value)).count id).fuel =
              session.fuel - (events.length + 1) := rfl
          rw [left] at less
          omega

theorem Program.restart_agrees {program : Program Id Event Value Failure Result}
    (lossless : program.Lossless encode) (sound : session.Sound encode program.calls) (fuel : Nat) :
    Agrees encode program.calls program.once.2 (cost program.calls) fuel
      (program.restart encode session fuel) :=
  program.attempt_agrees lossless (sound.restart fuel) rfl

/-- However often and wherever it was interrupted before, an attempt agrees with the run
that is not interrupted. -/
theorem Program.attempts_agree {program : Program Id Event Value Failure Result}
    (lossless : program.Lossless encode) (fuels : List Nat) (fuel : Nat) :
    Agrees encode program.calls program.once.2 (cost program.calls) fuel
      (program.restart encode (program.attempts encode fuels) fuel) := by
  apply Program.restart_agrees lossless
  apply List.foldlRecOn fuels _ Session.Sound.start
  intro session sound fuel _
  exact (Program.restart_agrees lossless sound fuel).sound

end HelixKit.Replay
