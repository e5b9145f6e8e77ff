/-
Purpose: Programs that question their environment, what one of them can have
  asked and been told so far, a rule for what it never asks and never ends with,
  and many such programs running over one shared state.
Trusted boundary: none
-/
import Mathlib.Data.List.Basic

namespace HelixKit.Dialogue

variable {Ask : Type} {Reply : Ask → Type} {α β : Type}

/-- A program asks its environment questions and goes on with each reply.
`running` is a loop that was cut off before it ended. -/
inductive Program (Reply : Ask → Type) (α : Type) where
  | result (value : α)
  | running
  | ask (question : Ask) (next : Reply question → Program Reply α)

/-- A question together with the reply it got. -/
abbrev Exchange (Reply : Ask → Type) : Type := Sigma Reply

namespace Program

def bind : Program Reply α → (α → Program Reply β) → Program Reply β
  | result value, f => f value
  | running, _ => running
  | ask question next, f => ask question fun reply => (next reply).bind f

instance : Monad (Program Reply) where
  pure := result
  bind := bind

/-- The program that asks one question and ends with the reply. -/
def inquire (question : Ask) : Program Reply (Reply question) :=
  ask question result

/-- The value a program has ended with. -/
def value? : Program Reply α → Option α
  | result value => some value
  | _ => none

variable {p : Program Reply α}

theorem value?_eq {value : α} (ended : p.value? = some value) :
    p = result value := by
  cases p <;> simp_all [value?]

/-- `p.Reaches past rest`: after the exchanges `past`, `rest` is what remains
of `p`. -/
inductive Reaches (p : Program Reply α) :
    List (Exchange Reply) → Program Reply α → Prop where
  | start : Reaches p [] p
  | next {past : List (Exchange Reply)} {question : Ask}
      {next : Reply question → Program Reply α} (reply : Reply question)
      (earlier : Reaches p past (ask question next)) :
      Reaches p (past ++ [⟨question, reply⟩]) (next reply)

theorem Reaches.of_nil {rest : Program Reply α} (reaches : p.Reaches [] rest) : rest = p := by
  generalize history : ([] : List (Exchange Reply)) = past at reaches
  cases reaches with
  | start => rfl
  | next => simp at history

/-- What a program went on to after its first exchange. -/
theorem Reaches.tail {question : Ask} {next : Reply question → Program Reply α}
    {reply : Reply question} {past : List (Exchange Reply)} {rest : Program Reply α}
    (reaches : (ask question next).Reaches (⟨question, reply⟩ :: past) rest) :
    (next reply).Reaches past rest := by
  generalize history : (⟨question, reply⟩ : Exchange Reply) :: past = all at reaches
  induction reaches generalizing past with
  | start => cases history
  | @next earlierPast asked following answer earlier ih =>
    rcases List.eq_nil_or_concat past with rfl | ⟨shorter, last, rfl⟩
    · have split : [] ++ [(⟨question, reply⟩ : Exchange Reply)] =
          earlierPast ++ [⟨asked, answer⟩] := by simpa using history
      obtain ⟨rfl, same⟩ := List.append_inj' split rfl
      cases earlier.of_nil
      cases same
      exact .start
    · rw [List.concat_eq_append] at history ⊢
      have split : (⟨question, reply⟩ :: shorter) ++ [last] =
          earlierPast ++ [⟨asked, answer⟩] := by simpa using history
      obtain ⟨front, back⟩ := List.append_inj' split rfl
      obtain rfl : last = ⟨asked, answer⟩ := by simpa using back
      exact (ih front).next answer

theorem Reaches.of_inquire_bind {question : Ask} {f : Reply question → Program Reply α}
    {reply : Reply question} {past : List (Exchange Reply)} {rest : Program Reply α}
    (reaches : (inquire question >>= f).Reaches (⟨question, reply⟩ :: past) rest) :
    (f reply).Reaches past rest :=
  Reaches.tail reaches

/-- The question has been put to the environment, answered or not. -/
def Asked (past : List (Exchange Reply)) (rest : Program Reply α) (question : Ask) : Prop :=
  (∃ reply, ⟨question, reply⟩ ∈ past) ∨ ∃ next, rest = ask question next

/-- With `past` behind it, the program asks only what `Allowed` allows and ends
only as `Ends` says, whatever it is told. -/
def Guards (Allowed : List (Exchange Reply) → Ask → Prop)
    (Ends : List (Exchange Reply) → α → Prop) :
    List (Exchange Reply) → Program Reply α → Prop
  | past, result value => Ends past value
  | _, running => True
  | past, ask question next =>
    Allowed past question ∧
      ∀ reply, Guards Allowed Ends (past ++ [⟨question, reply⟩]) (next reply)

section Guards

variable {Allowed : List (Exchange Reply) → Ask → Prop}
variable {Ends : List (Exchange Reply) → β → Prop}
variable {past : List (Exchange Reply)}

@[simp] theorem guards_pure {Ends : List (Exchange Reply) → α → Prop} (value : α) :
    Guards Allowed Ends past (pure value) ↔ Ends past value := Iff.rfl

@[simp] theorem guards_result {Ends : List (Exchange Reply) → α → Prop} (value : α) :
    Guards Allowed Ends past (result value) ↔ Ends past value := Iff.rfl

@[simp] theorem guards_running {Ends : List (Exchange Reply) → α → Prop} :
    Guards Allowed Ends past running := trivial

@[simp] theorem guards_pure_bind (value : α) (f : α → Program Reply β) :
    Guards Allowed Ends past (pure value >>= f) ↔ Guards Allowed Ends past (f value) := Iff.rfl

@[simp] theorem guards_inquire_bind (question : Ask)
    (f : Reply question → Program Reply β) :
    Guards Allowed Ends past (inquire question >>= f) ↔
      Allowed past question ∧
        ∀ reply, Guards Allowed Ends (past ++ [⟨question, reply⟩]) (f reply) := Iff.rfl

@[simp] theorem guards_inquire (question : Ask)
    {Ends : List (Exchange Reply) → Reply question → Prop} :
    Guards Allowed Ends past (inquire question) ↔
      Allowed past question ∧ ∀ reply, Ends (past ++ [⟨question, reply⟩]) reply := Iff.rfl

/-- The first program ends as `Middle` says; from there the second one takes
over. -/
theorem Guards.bind {Middle : List (Exchange Reply) → α → Prop}
    {f : α → Program Reply β} (first : Guards Allowed Middle past p)
    (second : ∀ later value, Middle later value → Guards Allowed Ends later (f value)) :
    Guards Allowed Ends past (p >>= f) := by
  induction p generalizing past with
  | result value => exact second past value first
  | running => trivial
  | ask question next ih => exact ⟨first.1, fun reply => ih reply (first.2 reply)⟩

/-- A program guards as much, and anything weaker, when more was said before
it. -/
theorem Guards.shift {More : List (Exchange Reply) → Ask → Prop}
    {Weaker : List (Exchange Reply) → β → Prop} {p : Program Reply β}
    (guards : Guards Allowed Ends past p) (prior : List (Exchange Reply))
    (allowed : ∀ later question, Allowed later question → More (prior ++ later) question)
    (ends : ∀ later value, Ends later value → Weaker (prior ++ later) value) :
    Guards More Weaker (prior ++ past) p := by
  induction p generalizing past with
  | result value => exact ends past value guards
  | running => trivial
  | ask question next ih =>
    refine ⟨allowed past question guards.1, fun reply => ?_⟩
    rw [List.append_assoc]
    exact ih reply (guards.2 reply)

theorem Guards.mono {Weaker : List (Exchange Reply) → β → Prop} {p : Program Reply β}
    (guards : Guards Allowed Ends past p)
    (ends : ∀ later value, Ends later value → Weaker later value) :
    Guards Allowed Weaker past p :=
  guards.shift [] (fun _ _ allowed => allowed) ends

/-- What a program guards from the start, what remains of it guards later. -/
theorem Guards.reaches {p rest : Program Reply β} {later : List (Exchange Reply)}
    (guards : Guards Allowed Ends past p) (reaches : p.Reaches later rest) :
    Guards Allowed Ends (past ++ later) rest := by
  induction reaches with
  | start => simpa using guards
  | next reply earlier ih =>
    rw [← List.append_assoc]
    exact ih.2 reply

/-- Every question the program has asked was allowed when it asked it. -/
theorem Guards.answered {p rest : Program Reply β} {before after : List (Exchange Reply)}
    {exchange : Exchange Reply} (guards : Guards Allowed Ends [] p)
    (reaches : p.Reaches (before ++ exchange :: after) rest) :
    Allowed before exchange.1 := by
  generalize history : before ++ exchange :: after = past at reaches
  induction reaches generalizing after with
  | start => simp at history
  | @next past question next reply earlier ih =>
    rcases List.eq_nil_or_concat after with rfl | ⟨shorter, last, rfl⟩
    · obtain ⟨rfl, rfl⟩ : before = past ∧ exchange = ⟨question, reply⟩ := by
        simpa using List.append_inj' history rfl
      simpa using (guards.reaches earlier).1
    · have shorterHistory : before ++ exchange :: shorter = past := by
        have split : (before ++ exchange :: shorter) ++ [last] =
            past ++ [⟨question, reply⟩] := by simpa using history
        exact (List.append_inj' split rfl).1
      exact ih shorterHistory

theorem Guards.asked {p rest : Program Reply β} {past : List (Exchange Reply)} {question : Ask}
    (guards : Guards Allowed Ends [] p) (reaches : p.Reaches past rest)
    (asked : Asked past rest question) : ∃ before, before <+: past ∧ Allowed before question := by
  rcases asked with ⟨reply, answered⟩ | ⟨next, rfl⟩
  · obtain ⟨before, after, rfl⟩ := List.append_of_mem answered
    exact ⟨before, List.prefix_append _ _, guards.answered reaches⟩
  · exact ⟨past, List.prefix_rfl, (guards.reaches reaches).1⟩

end Guards

-- From here on the equations above are the only way into `Guards`: unfolding it
-- would evaluate the program it is about.
attribute [irreducible] Guards

/-- Runs the program against an environment that replies from what was said so
far: the value it ends with, if it ends, and the exchanges. -/
def run (environment : List (Exchange Reply) → (question : Ask) → Reply question) :
    List (Exchange Reply) → Program Reply α → Option α × List (Exchange Reply)
  | past, result value => (some value, past)
  | past, running => (none, past)
  | past, ask question next =>
    let reply := environment past question
    run environment (past ++ [⟨question, reply⟩]) (next reply)

theorem run_reaches_from {environment : List (Exchange Reply) → (question : Ask) → Reply question}
    {rest : Program Reply α} {past : List (Exchange Reply)} {value : α}
    (reaches : p.Reaches past rest) (ended : (run environment past rest).1 = some value) :
    p.Reaches (run environment past rest).2 (result value) := by
  induction rest generalizing past with
  | result other =>
    obtain rfl : other = value := by simpa [run] using ended
    exact reaches
  | running => simp [run] at ended
  | ask question next ih => exact ih _ (reaches.next _) ended

theorem run_reaches {environment : List (Exchange Reply) → (question : Ask) → Reply question}
    {value : α} (ended : (run environment [] p).1 = some value) :
    p.Reaches (run environment [] p).2 (result value) :=
  run_reaches_from .start ended

end Program

/-! ### Many programs over one shared state -/

/-- One program: what it was started for and what remains of it. -/
structure Attempt (Reply : Ask → Type) (Info α : Type) where
  info : Info
  rest : Program Reply α

/-- The shared state, the programs in the order they were started, and every
exchange so far with the index of the program that made it. -/
structure World (σ : Type) (Reply : Ask → Type) (Info α : Type) where
  shared : σ
  attempts : List (Attempt Reply Info α) := []
  log : List (ℕ × Exchange Reply) := []

namespace World

variable {σ Info : Type}

/-- The exchanges of one program. -/
def history (log : List (ℕ × Exchange Reply)) (i : ℕ) : List (Exchange Reply) :=
  (log.filter fun event => event.1 = i).map Prod.snd

@[simp] theorem history_nil (i : ℕ) : history ([] : List (ℕ × Exchange Reply)) i = [] := rfl

@[simp] theorem history_append (log more : List (ℕ × Exchange Reply)) (i : ℕ) :
    history (log ++ more) i = history log i ++ history more i := by
  simp [history]

@[simp] theorem history_self (exchange : Exchange Reply) (i : ℕ) :
    history [(i, exchange)] i = [exchange] := by
  simp [history]

variable {i : ℕ}

theorem history_other (exchange : Exchange Reply) {j : ℕ} (other : i ≠ j) :
    history [(i, exchange)] j = [] := by
  simp [history, other]

variable {log : List (ℕ × Exchange Reply)} {exchange : Exchange Reply}

theorem mem_history :
    exchange ∈ history log i ↔ (i, exchange) ∈ log := by
  simp [history]

/-- A point in the exchanges of one program is a point in the log. -/
theorem history_split {before after : List (Exchange Reply)}
    (split : history log i = before ++ exchange :: after) :
    ∃ earlier later, log = earlier ++ (i, exchange) :: later ∧ history earlier i = before := by
  induction log generalizing before with
  | nil => simp at split
  | cons event rest ih =>
    obtain ⟨j, said⟩ := event
    have first : history ((j, said) :: rest) i = history [(j, said)] i ++ history rest i :=
      history_append [(j, said)] rest i
    rcases eq_or_ne j i with rfl | other
    · rw [first, history_self, List.singleton_append] at split
      cases before with
      | nil =>
        obtain ⟨rfl, -⟩ : said = exchange ∧ history rest j = after := by simpa using split
        exact ⟨[], rest, rfl, rfl⟩
      | cons head before =>
        obtain ⟨rfl, tail⟩ : said = head ∧ history rest j = before ++ exchange :: after := by
          simpa using split
        obtain ⟨earlier, later, rfl, same⟩ := ih tail
        refine ⟨(j, said) :: earlier, later, rfl, ?_⟩
        rw [← List.singleton_append, history_append, history_self, same, List.singleton_append]
    · rw [first, history_other _ other, List.nil_append] at split
      obtain ⟨earlier, later, rfl, same⟩ := ih split
      refine ⟨(j, said) :: earlier, later, rfl, ?_⟩
      rw [← List.singleton_append, history_append, history_other _ other, same, List.nil_append]

/-- `Answers log shared i question reply after`: asked by program `i`, the
environment may give this reply and leave the shared state as `after`. -/
abbrev Answers (σ : Type) (Reply : Ask → Type) : Type :=
  List (ℕ × Exchange Reply) → σ → ℕ → (question : Ask) → Reply question → σ → Prop

inductive Step (start : Info → Program Reply α) (answers : Answers σ Reply) :
    World σ Reply Info α → World σ Reply Info α → Prop where
  | start {world : World σ Reply Info α} (info : Info) :
      Step start answers world
        { world with attempts := world.attempts ++ [⟨info, start info⟩] }
  | answer {world : World σ Reply Info α} {i : ℕ} {info : Info} {question : Ask}
      {next : Reply question → Program Reply α} {reply : Reply question} {after : σ}
      (asking : world.attempts[i]? = some ⟨info, .ask question next⟩)
      (answered : answers world.log world.shared i question reply after) :
      Step start answers world
        { shared := after
          attempts := world.attempts.set i ⟨info, next reply⟩
          log := world.log ++ [(i, ⟨question, reply⟩)] }

inductive Run (start : Info → Program Reply α) (answers : Answers σ Reply) (shared : σ) :
    World σ Reply Info α → Prop where
  | start : Run start answers shared { shared }
  | next {world after : World σ Reply Info α} (earlier : Run start answers shared world)
      (step : Step start answers world after) : Run start answers shared after

variable {start : Info → Program Reply α} {answers : Answers σ Reply} {initial : σ}
variable {world : World σ Reply Info α}

/-- Only programs that were started have exchanges in the log. -/
theorem Run.started (run : Run start answers initial world) (logged : (i, exchange) ∈ world.log) :
    i < world.attempts.length := by
  induction run with
  | start => simp at logged
  | next earlier step ih =>
    cases step with
    | start info =>
      have before := ih logged
      simp only [List.length_append, List.length_singleton]
      omega
    | answer asking answered =>
      rw [List.length_set]
      rcases List.mem_append.1 logged with old | new
      · exact ih old
      · obtain ⟨rfl, -⟩ : i = _ ∧ exchange = _ := by simpa using new
        exact (List.getElem?_eq_some_iff.1 asking).1

/-- Every program is where its own exchanges have brought it. -/
theorem Run.reaches (run : Run start answers initial world)
    {attempt : Attempt Reply Info α} (running : world.attempts[i]? = some attempt) :
    (start attempt.info).Reaches (history world.log i) attempt.rest := by
  induction run generalizing attempt with
  | start => simp at running
  | @next world after earlier step ih =>
    cases step with
    | start info =>
      rcases Nat.lt_or_ge i world.attempts.length with old | new
      · rw [List.getElem?_append_left old] at running
        exact ih running
      · obtain ⟨rfl, rfl⟩ : i = world.attempts.length ∧
            attempt = ⟨info, start info⟩ := by
          have bound := (List.getElem?_eq_some_iff.1 running).1
          simp only [List.length_append, List.length_singleton] at bound
          have last : i = world.attempts.length := by omega
          subst last
          simpa [eq_comm] using running
        have silent : history world.log world.attempts.length = [] := by
          apply List.eq_nil_iff_forall_not_mem.2
          intro exchange said
          exact absurd (earlier.started (mem_history.1 said)) (Nat.lt_irrefl _)
        simp only [silent]
        exact .start
    | @answer j info question next reply after asking answered =>
      rw [history_append]
      rcases eq_or_ne j i with rfl | other
      · have same : attempt = ⟨info, next reply⟩ := by
          rw [List.getElem?_set_self (List.getElem?_eq_some_iff.1 asking).1] at running
          simpa [eq_comm] using running
        subst same
        rw [history_self]
        exact (ih asking).next reply
      · rw [List.getElem?_set_ne other] at running
        rw [history_other _ other, List.append_nil]
        exact ih running

/-- What every program guards, each program of a run was allowed to ask. -/
theorem Run.answered {Allowed : Info → List (Exchange Reply) → Ask → Prop}
    {Ends : List (Exchange Reply) → α → Prop}
    (guards : ∀ info, Program.Guards (Allowed info) Ends [] (start info))
    (run : Run start answers initial world) {before after : List (ℕ × Exchange Reply)} (logged : world.log = before ++ (i, exchange) :: after) :
    ∃ attempt, world.attempts[i]? = some attempt ∧
      Allowed attempt.info (history before i) exchange.1 := by
  have said : (i, exchange) ∈ world.log := by simp [logged]
  have bound : i < world.attempts.length := run.started said
  have reaches := run.reaches (List.getElem?_eq_getElem bound)
  have split : history world.log i = history before i ++ exchange :: history after i := by
    have first : (i, exchange) :: after = [(i, exchange)] ++ after := rfl
    rw [logged, first, history_append, history_append, history_self, List.singleton_append]
  rw [split] at reaches
  exact ⟨_, List.getElem?_eq_getElem bound, (guards _).answered reaches⟩

/-! ### Conditions on the steps of a run -/

/-- Each exchange met a condition on what had been said before it. -/
def Throughout (Meets : List (ℕ × Exchange Reply) → ℕ → Exchange Reply → Prop)
    (log : List (ℕ × Exchange Reply)) : Prop :=
  ∀ before i exchange after, log = before ++ (i, exchange) :: after → Meets before i exchange

variable {Meets : List (ℕ × Exchange Reply) → ℕ → Exchange Reply → Prop}

theorem throughout_nil : Throughout Meets ([] : List (ℕ × Exchange Reply)) := by
  intro before i exchange after split
  simp at split

theorem Throughout.of_append {more : List (ℕ × Exchange Reply)}
    (throughout : Throughout Meets (log ++ more)) : Throughout Meets log := by
  intro before i exchange after split
  exact throughout before i exchange (after ++ more) (by simp [split])

theorem Throughout.of_mem (throughout : Throughout Meets log) (logged : (i, exchange) ∈ log) :
    ∃ before after, log = before ++ (i, exchange) :: after ∧ Meets before i exchange := by
  obtain ⟨before, after, split⟩ := List.append_of_mem logged
  exact ⟨before, after, split, throughout before i exchange after split⟩

/-- A condition on the steps can be tested step by step. -/
theorem Throughout.of_check {check : List (ℕ × Exchange Reply) → ℕ → Exchange Reply → Bool}
    (sound : ∀ before i exchange, check before i exchange = true → Meets before i exchange)
    (checked : ((List.range log.length).all fun k =>
      log[k]?.all fun event => check (log.take k) event.1 event.2) = true) :
    Throughout Meets log := by
  intro before i exchange after split
  apply sound
  have found := List.all_eq_true.1 checked before.length (by simp [split])
  simpa [split] using found

theorem throughout_concat :
    Throughout Meets (log ++ [(i, exchange)]) ↔ Throughout Meets log ∧ Meets log i exchange := by
  constructor
  · intro all
    exact ⟨all.of_append, all log i exchange [] rfl⟩
  · rintro ⟨earlier, now⟩ before j other after split
    rcases List.eq_nil_or_concat after with rfl | ⟨shorter, last, rfl⟩
    · obtain ⟨rfl, same⟩ := List.append_inj' split rfl
      obtain ⟨rfl, rfl⟩ : i = j ∧ exchange = other := by simpa using same
      exact now
    · rw [List.concat_eq_append, ← List.cons_append, ← List.append_assoc] at split
      exact earlier before j other shorter (List.append_inj' split rfl).1

/-! ### Playing a script -/

/-- One entry of a script: a program is started, or program `i` gets its next
reply, chosen by the shared state and the question it asks. -/
inductive Turn (σ : Type) (Reply : Ask → Type) (Info : Type) where
  | start (info : Info)
  | answer (i : ℕ) (reply : σ → (question : Ask) → Option (Reply question))

/-- `Answers` of an environment that computes the shared state after a reply,
or refuses the reply. -/
def Answers.computed
    (answer : List (ℕ × Exchange Reply) → σ → ℕ → (question : Ask) → Reply question → Option σ) :
    Answers σ Reply :=
  fun log shared i question reply after => answer log shared i question reply = some after

section Play

variable (start) in
def turn
    (answer : List (ℕ × Exchange Reply) → σ → ℕ → (question : Ask) → Reply question → Option σ)
    (world : World σ Reply Info α) : Turn σ Reply Info → Option (World σ Reply Info α)
  | .start info => some { world with attempts := world.attempts ++ [⟨info, start info⟩] }
  | .answer i choose =>
    match world.attempts[i]? with
    | some ⟨info, .ask question next⟩ => do
        let reply ← choose world.shared question
        let after ← answer world.log world.shared i question reply
        return { shared := after
                 attempts := world.attempts.set i ⟨info, next reply⟩
                 log := world.log ++ [(i, ⟨question, reply⟩)] }
    | _ => none

variable (start) in
def play
    (answer : List (ℕ × Exchange Reply) → σ → ℕ → (question : Ask) → Reply question → Option σ)
    (world : World σ Reply Info α) : List (Turn σ Reply Info) → Option (World σ Reply Info α)
  | [] => some world
  | first :: rest => (turn start answer world first).bind fun after => play answer after rest

variable {answer :
  List (ℕ × Exchange Reply) → σ → ℕ → (question : Ask) → Reply question → Option σ}

theorem turn_step {after : World σ Reply Info α} {move : Turn σ Reply Info}
    (moved : turn start answer world move = some after) :
    Step start (.computed answer) world after := by
  cases move with
  | start info =>
    obtain rfl : _ = after := by simpa [turn] using moved
    exact .start info
  | answer i choose =>
    simp only [turn] at moved
    split at moved
    next info question next asking =>
      simp only [Option.bind_eq_bind, Option.bind_eq_some_iff, Option.pure_def,
        Option.some.injEq] at moved
      obtain ⟨reply, -, shared, answered, rfl⟩ := moved
      exact .answer asking answered
    next => cases moved

theorem Run.play {after : World σ Reply Info α} {script : List (Turn σ Reply Info)}
    (run : Run start (.computed answer) initial world)
    (played : World.play start answer world script = some after) :
    Run start (.computed answer) initial after := by
  induction script generalizing world with
  | nil =>
    obtain rfl : world = after := by simpa [World.play] using played
    exact run
  | cons first rest ih =>
    obtain ⟨between, moved, continued⟩ := Option.bind_eq_some_iff.1 played
    exact ih (run.next (turn_step moved)) continued

end Play

end World

end HelixKit.Dialogue
