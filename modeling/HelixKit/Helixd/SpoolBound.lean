/-
Purpose: One `enqueue` from start to end: what it leaves on disk when the new event does not fit,
  and that a call that nothing interferes with takes these steps in the spool.
Trusted boundary: none
Main exports: enqueue_alone
-/
import HelixKit.Helixd.SpoolKept

namespace HelixKit.Helixd

open HelixKit.Runs

/-! ### The call -/

/-- The table `events`, with the last id that was given out. -/
structure Table where
  events : List Row
  lastId : Nat
  rising : events.Pairwise (·.id < ·.id)
  given : ∀ row ∈ events, row.id ≤ lastId

/-- Whether the envelope marshals, and which statements of the call succeed: each SUM and each
DELETE is known by its round. -/
structure Statements where
  marshals : Bool := true
  insert : Bool := true
  sum : Nat → Bool := fun _ => true
  delete : Nat → Bool := fun _ => true

/-- The loop of `enforceBound` from a round on, with whether it returns nil. -/
def enforceBound (maxBytes : Int) (statements : Statements) : Nat → List Row → List Row × Bool
  | round, [] =>
    if !statements.sum round then ([], false)
    else if maxBytes < totalBytes [] then ([], statements.delete round)
    else ([], true)
  | round, oldest :: rest =>
    if !statements.sum round then (oldest :: rest, false)
    else if maxBytes < totalBytes (oldest :: rest) then
      if statements.delete round then enforceBound maxBytes statements (round + 1) rest
      else (oldest :: rest, false)
    else (oldest :: rest, true)

variable (table : Table) (maxBytes : Int) (size : Nat) (statements : Statements)

def Table.newRow : Row := { id := table.lastId + 1, size, readable := true }

/-- `enqueue`: what the table holds afterwards, and whether nil is returned. -/
def enqueue : List Row × Bool :=
  if !statements.marshals then (table.events, false)
  else if !statements.insert then (table.events, false)
  else
    let events := table.events ++ [table.newRow size]
    if maxBytes ≤ 0 then (events, true) else enforceBound maxBytes statements 0 events

/-- There is a bound, and the event alone is over it. -/
def Oversize : Prop := 0 < maxBytes ∧ maxBytes < size

/-- An event whose `enqueue` returned nil is on disk; one that is over the bound alone is refused or
dropped, and everything else stays. -/
structure Stored (result : List Row × Bool) : Prop where
  onDisk : result.2 = true → table.newRow size ∈ result.1
  refused : Oversize maxBytes size → result.2 = false ∨ table.newRow size ∉ result.1
  others : Oversize maxBytes size → ∀ row ∈ table.events, row ∈ result.1

/-- The event fits, or a statement fails before another event is deleted. -/
def Spared : Prop :=
  Oversize maxBytes size → statements.marshals = false ∨ statements.insert = false ∨
    statements.sum 0 = false ∨ statements.delete 0 = false ∨
      table.events = [] ∧ statements.sum 1 = false

/-! ### What the loop leaves -/

variable {table} {maxBytes} {size} {statements}

theorem enforceBound_suffix (round : Nat) (rows : List Row) :
    (enforceBound maxBytes statements round rows).1 <:+ rows := by
  induction rows generalizing round with
  | nil =>
    unfold enforceBound
    split
    · exact List.suffix_rfl
    · split <;> exact List.suffix_rfl
  | cons oldest rest ih =>
    unfold enforceBound
    split
    · exact List.suffix_rfl
    split
    · split
      · exact (ih (round + 1)).trans (List.suffix_cons oldest rest)
      · exact List.suffix_rfl
    · exact List.suffix_rfl

/-- A last row that fits alone is not deleted. -/
theorem last_mem_enforceBound {last : Row} (fits : last.size ≤ maxBytes) (round : Nat)
    (rows : List Row) : last ∈ (enforceBound maxBytes statements round (rows ++ [last])).1 := by
  induction rows generalizing round with
  | nil =>
    have total : ¬ maxBytes < totalBytes [last] := by
      simpa [totalBytes] using fits
    rw [List.nil_append, enforceBound, if_neg total]
    split <;> exact List.mem_singleton_self last
  | cons oldest rest ih =>
    have inside : last ∈ oldest :: (rest ++ [last]) :=
      List.mem_cons_of_mem oldest (List.mem_append_right rest (List.mem_singleton_self last))
    rw [List.cons_append]
    unfold enforceBound
    split
    · exact inside
    split
    · split
      · exact ih (round + 1)
      · exact inside
    · exact inside

theorem newRow_notMem : table.newRow size ∉ table.events := by
  intro member
  have given := table.given _ member
  simp only [Table.newRow] at given
  omega

/-- Rows that end in one over the bound are over it. -/
theorem oversize_total (large : Oversize maxBytes size) (rows : List Row) :
    maxBytes < totalBytes (rows ++ [table.newRow size]) := by
  obtain ⟨-, large⟩ := large
  simp only [totalBytes, Table.newRow, List.map_append, List.map_cons, List.map_nil,
    List.sum_append, List.sum_cons, List.sum_nil]
  omega

/-- The round on rows that are over the bound. -/
theorem enforceBound_over (round : Nat) {oldest : Row} {rest : List Row}
    (large : maxBytes < totalBytes (oldest :: rest)) :
    enforceBound maxBytes statements round (oldest :: rest) =
      if statements.sum round = false ∨ statements.delete round = false then
        (oldest :: rest, false)
      else enforceBound maxBytes statements (round + 1) rest := by
  rw [enforceBound, if_pos large]
  cases statements.sum round with
  | false => simp
  | true => cases statements.delete round <;> simp

/-- An error that leaves the other events. -/
theorem stored_of_error {result : List Row × Bool} (error : result.2 = false)
    (others : ∀ row ∈ table.events, row ∈ result.1) : Stored table maxBytes size result where
  onDisk nil := by
    rw [error] at nil
    cases nil
  refused _ := .inl error
  others _ := others

theorem enqueue_error (fails : statements.marshals = false ∨ statements.insert = false) :
    enqueue table maxBytes size statements = (table.events, false) := by
  unfold enqueue
  rcases fails with marshals | insert
  · simp [marshals]
  · simp [insert]

theorem enqueue_bounded (marshals : statements.marshals = true) (insert : statements.insert = true)
    (bounded : 0 < maxBytes) : enqueue table maxBytes size statements =
      enforceBound maxBytes statements 0 (table.events ++ [table.newRow size]) := by
  have notFree : ¬ maxBytes ≤ 0 := by omega
  simp [enqueue, marshals, insert, notFree]

/-- With no event before it, one that is over the bound alone is deleted. -/
theorem stored_alone (large : Oversize maxBytes size) (empty : table.events = []) :
    Stored table maxBytes size (enforceBound maxBytes statements 0 [table.newRow size]) ↔
      statements.sum 0 = false ∨ statements.delete 0 = false ∨ statements.sum 1 = false := by
  have noOther : ∀ rows : List Row, ∀ row ∈ table.events, row ∈ rows := by
    rw [empty]
    intro rows row member
    cases member
  have total : maxBytes < totalBytes ([] ++ [table.newRow size]) := oversize_total large []
  rw [List.nil_append] at total
  rw [enforceBound_over 0 total]
  by_cases fails : statements.sum 0 = false ∨ statements.delete 0 = false
  · rw [if_pos fails]
    refine ⟨fun _ => ?_, fun _ => stored_of_error rfl (noOther _)⟩
    rcases fails with sum | delete
    · exact .inl sum
    · exact .inr (.inl delete)
  rw [if_neg fails, enforceBound]
  obtain ⟨sum, delete⟩ := not_or.mp fails
  by_cases last : statements.sum 1 = false
  · have failed : (!statements.sum (0 + 1)) = true := by simpa using last
    rw [if_pos failed]
    exact ⟨fun _ => .inr (.inr last), fun _ => stored_of_error rfl (noOther _)⟩
  have goes : ¬ (!statements.sum (0 + 1)) = true := by simpa using last
  have none_ : ¬ maxBytes < totalBytes [] := by
    have bounded := large.1
    simp only [totalBytes, List.map_nil, List.sum_nil, Int.natCast_zero]
    omega
  rw [if_neg goes, if_neg none_]
  refine ⟨fun stored => ?_, fun any => ?_⟩
  · cases stored.onDisk rfl
  · rcases any with first | second | third
    · exact absurd first sum
    · exact absurd second delete
    · exact absurd third last

/-- Before an event that is over the bound alone, another one is deleted first. -/
theorem stored_behind (large : Oversize maxBytes size) {oldest : Row} {rest : List Row}
    (shape : table.events = oldest :: rest) :
    Stored table maxBytes size
        (enforceBound maxBytes statements 0 (oldest :: (rest ++ [table.newRow size]))) ↔
      statements.sum 0 = false ∨ statements.delete 0 = false := by
  have total : maxBytes < totalBytes (oldest :: rest ++ [table.newRow size]) :=
    oversize_total large (oldest :: rest)
  rw [List.cons_append] at total
  have inTable : oldest ∈ table.events := by
    rw [shape]
    exact List.mem_cons_self
  rw [enforceBound_over 0 total]
  by_cases fails : statements.sum 0 = false ∨ statements.delete 0 = false
  · rw [if_pos fails]
    refine ⟨fun _ => fails, fun _ => stored_of_error rfl fun row member => ?_⟩
    rw [shape] at member
    rw [← List.cons_append]
    exact List.mem_append_left _ member
  · rw [if_neg fails]
    refine ⟨fun stored => ?_, fun any => absurd any fails⟩
    have kept := (enforceBound_suffix (0 + 1) _).subset (stored.others large oldest inTable)
    rcases List.mem_append.mp kept with later | last
    · have rising := table.rising
      rw [shape] at rising
      exact absurd (List.rel_of_pairwise_cons rising later) (Nat.lt_irrefl _)
    · rw [List.mem_singleton.mp last] at inTable
      exact absurd inTable newRow_notMem

/-- `enqueue` does what it says exactly when the event fits, or a statement fails in time. -/
theorem stored_iff (table : Table) (maxBytes : Int) (size : Nat) (statements : Statements) :
    Stored table maxBytes size (enqueue table maxBytes size statements) ↔
      Spared table maxBytes size statements := by
  by_cases early : statements.marshals = false ∨ statements.insert = false
  · rw [enqueue_error early]
    refine ⟨fun _ _ => ?_, fun _ => stored_of_error rfl fun _ member => member⟩
    rcases early with marshals | insert
    · exact .inl marshals
    · exact .inr (.inl insert)
  obtain ⟨marshals, insert⟩ := not_or.mp early
  rw [Bool.not_eq_false] at marshals insert
  by_cases large : Oversize maxBytes size
  · rw [enqueue_bounded marshals insert large.1]
    have spared : Spared table maxBytes size statements ↔ statements.sum 0 = false ∨
        statements.delete 0 = false ∨ table.events = [] ∧ statements.sum 1 = false := by
      simp [Spared, large, marshals, insert]
    rw [spared]
    cases shape : table.events with
    | nil =>
      rw [List.nil_append, stored_alone large shape]
      simp
    | cons oldest rest =>
      rw [List.cons_append, stored_behind large shape]
      simp
  · refine ⟨fun _ contra => absurd contra large, fun _ => ⟨fun _ => ?_, ?_, ?_⟩⟩
    · by_cases bounded : 0 < maxBytes
      · rw [enqueue_bounded marshals insert bounded]
        have fits : ((table.newRow size).size : Int) ≤ maxBytes := by
          by_contra larger
          exact large ⟨bounded, not_le.mp larger⟩
        exact last_mem_enforceBound fits 0 table.events
      · have free : maxBytes ≤ 0 := not_lt.mp bounded
        simp [enqueue, marshals, insert, free]
    · exact fun contra => absurd contra large
    · exact fun contra => absurd contra large

/-- An event that is larger than the bound is dropped, and the one before it too, without an
error. -/
theorem oversize_empties :
    enqueue ⟨[⟨1, 5, true⟩], 1, by simp, by simp⟩ 10 20 {} = ([], true) ∧
    ¬ Stored ⟨[⟨1, 5, true⟩], 1, by simp, by simp⟩ 10 20
      (enqueue ⟨[⟨1, 5, true⟩], 1, by simp, by simp⟩ 10 20 {}) := by
  have empty : enqueue ⟨[⟨1, 5, true⟩], 1, by simp, by simp⟩ 10 20 {} = ([], true) := by decide
  refine ⟨empty, fun stored => ?_⟩
  rw [empty] at stored
  cases stored.onDisk rfl

/-! ### The call in the spool -/

/-- The operations of call `n` from a round of its loop on. -/
def loopOps (maxBytes : Int) (statements : Statements) (n : Nat) : Nat → List Row → List Op
  | round, [] =>
    .sum n (statements.sum round) ::
      if !statements.sum round then []
      else if maxBytes < totalBytes [] then
        .evict n (statements.delete round) :: if statements.delete round then [.back n] else []
      else [.back n]
  | round, oldest :: rest =>
    .sum n (statements.sum round) ::
      if !statements.sum round then []
      else if maxBytes < totalBytes (oldest :: rest) then
        .evict n (statements.delete round) ::
          if statements.delete round then loopOps maxBytes statements n (round + 1) rest else []
      else [.back n]

/-- The call is back with this answer, and the table holds these rows. -/
def EndsWith (s : Spool) (n : Nat) (result : List Row × Bool) : Prop :=
  s.events = result.1 ∧ ∃ call, s.calls n = some call ∧ call.phase = .returned result.2

theorem at?_setCall (s : Spool) (n : Nat) (call : Call) :
    (s.setCall n call).at? n call.phase = some call :=
  at?_eq_some.mpr ⟨setCall_self s n call, rfl⟩

section

variable {s : Spool} {n : Nat} {call : Call}

/-- A statement that fails ends the call. -/
theorem endsWith_fail : EndsWith (s.fail n call) n (s.events, false) :=
  ⟨rfl, _, setCall_self s n _, rfl⟩

/-- After its last statement, the call returns nil. -/
theorem endsWith_back : EndsWith (run step (s.pass n call) [.back n]) n (s.events, true) := by
  have passing : (s.pass n call).at? n .passing =
      some { call with phase := .passing, seen := s.lastId } := at?_setCall s n _
  rw [run_cons, run_nil, step, passing]
  exact ⟨rfl, _, setCall_self _ n _, rfl⟩

/-- The oldest row goes, and the call goes on to the next SUM. -/
theorem evict_cons {oldest : Row} {rest : List Row} (shape : s.events = oldest :: rest) (n : Nat)
    (call : Call) :
    (s.evict n call).events = rest ∧ (s.evict n call).maxBytes = s.maxBytes ∧
      (s.evict n call).at? n .summing = some { call with phase := .summing } := by
  unfold Spool.evict
  rw [shape]
  exact ⟨rfl, rfl, at?_setCall s n _⟩

theorem run_loopOps (at_ : s.at? n .summing = some call) (round : Nat) :
    EndsWith (run step s (loopOps s.maxBytes statements n round s.events)) n
      (enforceBound s.maxBytes statements round s.events) := by
  generalize shape : s.events = rows
  induction rows generalizing s call round with
  | nil =>
    rw [loopOps, enforceBound, run_cons, step, at_]
    cases statements.sum round with
    | false =>
      rw [← shape]
      exact endsWith_fail
    | true =>
      simp only [Bool.not_true, Bool.false_eq_true, if_false, if_true, ← shape]
      by_cases large : s.maxBytes < totalBytes s.events
      · simp only [if_pos large]
        have evicting : (s.setCall n { call with phase := .evicting }).at? n .evicting =
            some { call with phase := .evicting } := at?_setCall s n _
        rw [run_cons, step, evicting]
        cases statements.delete round with
        | false => exact endsWith_fail
        | true =>
          have none_ : (s.setCall n { call with phase := .evicting }).evict n
              { call with phase := .evicting } =
              (s.setCall n { call with phase := .evicting }).pass n
                { call with phase := .evicting } := by
            have same : (s.setCall n { call with phase := .evicting }).events = [] := shape
            rw [Spool.evict, same]
          simp only [if_true, none_]
          exact endsWith_back
      · simp only [if_neg large]
        exact endsWith_back
  | cons oldest rest ih =>
    rw [loopOps, enforceBound, run_cons, step, at_]
    cases statements.sum round with
    | false =>
      rw [← shape]
      exact endsWith_fail
    | true =>
      simp only [Bool.not_true, Bool.false_eq_true, if_false, if_true, ← shape]
      by_cases large : s.maxBytes < totalBytes s.events
      · simp only [if_pos large]
        have evicting : (s.setCall n { call with phase := .evicting }).at? n .evicting =
            some { call with phase := .evicting } := at?_setCall s n _
        rw [run_cons, step, evicting]
        cases statements.delete round with
        | false => exact endsWith_fail
        | true =>
          simp only [if_true]
          have still :
              (s.setCall n { call with phase := .evicting }).events = oldest :: rest := shape
          obtain ⟨left, bound, summing⟩ := evict_cons still n { call with phase := .evicting }
          have later := ih summing (round + 1) left
          rw [bound] at later
          exact later
      · simp only [if_neg large]
        exact endsWith_back

/-- The operations of call `n` from its INSERT on. -/
def insertOps (s : Spool) (statements : Statements) (n size : Nat) : List Op :=
  .insert n statements.insert ::
    if !statements.insert then []
    else if s.maxBytes ≤ 0 then [.back n]
    else loopOps s.maxBytes statements n 0
      (s.events ++ [{ id := s.lastId + 1, size, readable := true }])

theorem run_insertOps (at_ : s.at? n .inserting = some call) :
    EndsWith (run step s (insertOps s statements n call.size)) n
      (if !statements.insert then (s.events, false)
      else
        let events := s.events ++ [{ id := s.lastId + 1, size := call.size, readable := true }]
        if s.maxBytes ≤ 0 then (events, true)
        else enforceBound s.maxBytes statements 0 events) := by
  rw [insertOps, run_cons, step, at_]
  cases statements.insert with
  | false => exact endsWith_fail
  | true =>
    simp only [Bool.not_true, Bool.false_eq_true, if_false, if_true, Spool.insert]
    by_cases free : s.maxBytes ≤ 0
    · simp only [if_pos free]
      exact endsWith_back
    · simp only [if_neg free]
      exact run_loopOps
        (at?_setCall _ n { call with row := some (s.lastId + 1), phase := .summing }) 0

/-- The operations of a call of `enqueue`. -/
def callOps (s : Spool) (statements : Statements) (size : Nat) : List Op :=
  .enqueue size statements.marshals ::
    if !statements.marshals then [] else insertOps s statements s.issued size

/-- A call that nothing else interferes with does in the spool what `enqueue` does. -/
theorem enqueue_alone (s : Spool) (table : Table) (events : s.events = table.events)
    (lastId : s.lastId = table.lastId) (statements : Statements) (size : Nat) :
    EndsWith (run step s (callOps s statements size)) s.issued
      (enqueue table s.maxBytes size statements) := by
  unfold callOps enqueue Table.newRow
  rw [run_cons, ← events, ← lastId]
  cases marshals : statements.marshals with
  | false => exact ⟨rfl, _, setCall_self s _ _, rfl⟩
  | true =>
    simp only [Bool.not_true, Bool.false_eq_true, if_false]
    have inserting := at?_setCall s s.issued { size, phase := .inserting }
    exact @run_insertOps statements (step s (.enqueue size true)) s.issued _ inserting

end

theorem enqueue_alone_oversize :
    EndsWith (run step { maxBytes := 5 } (callOps { maxBytes := 5 } {} 7)) 0
      (enqueue ⟨[], 0, .nil, nofun⟩ 5 7 {}) :=
  enqueue_alone { maxBytes := 5 } ⟨[], 0, .nil, nofun⟩ rfl rfl {} 7

end HelixKit.Helixd
