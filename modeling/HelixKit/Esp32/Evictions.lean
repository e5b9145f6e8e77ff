/-
Purpose: Which rows an enqueue evicts from a full queue, and when it comes to an end, with
  deletions that may fail (`embedded/esp32/platform/src/helix_event_queue.c`).
Trusted boundary: none
Main exports: evictions_iff
-/
import HelixKit.Esp32.Deletion
import HelixKit.Esp32.Deliveries

namespace HelixKit.Esp32.EventQueue

open HelixKit.Esp32.Db
open HelixKit.Runs

/-! ### Rows -/

/-- The queue has the row. -/
def Holds (q : Queue) (row : Row) : Prop :=
  ∃ key, isRowKey eventsTable key = true ∧
    (q.store.db.kvs key).bind (rowOf eventsTable) = some row

/-- Rows are under the keys of their ids. -/
def UnderIds (q : Queue) : Prop :=
  ∀ key row, isRowKey eventsTable key = true →
    (q.store.db.kvs key).bind (rowOf eventsTable) = some row →
      ∃ id : UInt32, key = row_key eventsTable id ∧ row.record.id = id.toNat

/-- In which order rows are evicted. -/
def Status.rank : Status → Nat
  | .sent => 0
  | .expired => 1
  | .pending => 2

theorem Status.rank_inj {a b : Status} (same : a.rank = b.rank) : a = b := by
  cases a <;> cases b <;> first | rfl | cases same

/-- No row is to be evicted before this one: the terminal ones first, then the smallest id. -/
def Oldest (q : Queue) (row : Row) : Prop :=
  ∀ other, Holds q other → row.record.status.rank < other.record.status.rank ∨
    row.record.status = other.record.status ∧ row.record.id ≤ other.record.id

/-- The first row of the status that a pass meets. -/
def firstMet (listed : Status → Scan) (q : Queue) (status : Status) : Option Row :=
  (scanRows eventsTable (·.record.status = status) (listed status).order (listed status).readable
    q.store.db).head?

/-- The passes of a round find every entry once, and only deletions fail. -/
structure Evict.Scanned (round : Evict) (q : Queue) : Prop where
  counted : q.store.db.Scanned round.counted.order round.counted.readable
  listed : ∀ status, q.store.db.Scanned (round.listed status).order (round.listed status).readable

/-- In the first class that has rows, the pass meets the one with the smallest id first. -/
def MeetsOldest (listed : Status → Scan) (q : Queue) : Prop :=
  ∀ status row, firstMet listed q status = some row →
    (∀ other, Holds q other → status.rank ≤ other.record.status.rank) →
      ∀ other, Holds q other → other.record.status = status → row.record.id ≤ other.record.id

variable {cfg : Config}

/-- The eviction of one enqueue, with all the rounds that there can be. -/
structure Eviction (cfg : Config) where
  queue : Queue
  under : UnderIds queue
  rounds : Nat → Evict
  scanned : ∀ i, (evictLoop cfg ((List.range i).map rounds) queue).2 = false →
    (rounds i).Scanned (evictLoop cfg ((List.range i).map rounds) queue).1

namespace Eviction

variable (e : Eviction cfg)

/-- The queue after `i` rounds, and whether the loop has ended. -/
def after (i : Nat) : Queue × Bool := evictLoop cfg ((List.range i).map e.rounds) e.queue

def Ended (i : Nat) : Prop := (e.after i).2 = true

/-- The deletion of the round succeeds. -/
def taken (i : Nat) : Nat := if (e.rounds i).flash.deletes then 1 else 0

/-- The row that round `i` evicts. -/
def evicts (i : Nat) : Option Row :=
  if (e.after i).2 = true ∨
      count (fun _ => true) (e.rounds i).counted (e.after i).1 < cfg.max_events
  then none
  else candidate (e.rounds i).listed (e.after i).1

end Eviction

/-- How many rows the queue has. -/
noncomputable def size (q : Queue) : Nat :=
  (matching eventsTable (fun _ => true) q.store.db).ncard

/-! ### What the passes find -/

section Passes

variable {q : Queue}

theorem scanRows_length (accept : Row → Bool) (scan : Scan) :
    (scanRows eventsTable accept scan.order scan.readable q.store.db).length =
      (matches_ eventsTable accept { order := scan.order, readable := scan.readable }
        q.store.db).length := by
  rw [scanRows, matches_, List.length_filterMap_eq_countP, List.length_filterMap_eq_countP]
  congr 1
  funext key
  by_cases isRow : isRowKey eventsTable key = true
  · cases found : (q.store.db.get_blob key (scan.readable key)).bind (rowOf eventsTable) with
    | none => simp [isRow]
    | some row => cases accepted : accept row <;> simp [isRow, accepted, key_row_id]
  · simp [key_row_id, isRow]

theorem UnderIds.keyed (under : UnderIds q) : Keyed eventsTable q.store.db := by
  intro key row isRow found
  obtain ⟨id, own, -⟩ := under key row isRow found
  exact ⟨id, own⟩

/-- The count is the number of rows. -/
theorem count_eq (under : UnderIds q) {scan : Scan}
    (scanned : q.store.db.Scanned scan.order scan.readable) :
    count (fun _ => true) scan q = size q := by
  rw [count, hdb_count, scanRows_length]
  exact (matches_spec (fun _ => true) events_fits under.keyed scanned).2.2

theorem mem_scanned {accept : Row → Bool} {scan : Scan}
    (scanned : q.store.db.Scanned scan.order scan.readable) (row : Row) :
    row ∈ scanRows eventsTable accept scan.order scan.readable q.store.db ↔
      Holds q row ∧ accept row = true := by
  rw [scanRows, List.mem_filterMap]
  have read : ∀ key, q.store.db.get_blob key (scan.readable key) = q.store.db.kvs key := by
    intro key
    rw [Kvdb.get_blob, scanned.read key, if_pos rfl]
  constructor
  · rintro ⟨key, -, found⟩
    rw [read] at found
    split at found
    next isRow =>
      obtain ⟨held, accepted⟩ := Option.filter_eq_some_iff.mp found
      exact ⟨⟨key, isRow, held⟩, accepted⟩
    next => cases found
  · rintro ⟨⟨key, isRow, held⟩, accepted⟩
    refine ⟨key, (scanned.found key).mpr fun gone => ?_, ?_⟩
    · rw [gone] at held
      cases held
    · rw [read, if_pos isRow, held]
      exact Option.filter_eq_some_iff.mpr ⟨rfl, accepted⟩

/-- With room for one row, the list is the first row that is met. -/
theorem list_one (status : Status) (scan : Scan) :
    (list status 1 1 scan q).head? =
      (scanRows eventsTable (·.record.status = status) scan.order scan.readable
        q.store.db).head? := by
  rw [list, hdb_select]
  cases scanRows eventsTable (·.record.status = status) scan.order scan.readable q.store.db with
  | nil => rfl
  | cons row rest => simp

theorem candidate_eq (listed : Status → Scan) :
    candidate listed q = (firstMet listed q .sent).or
      ((firstMet listed q .expired).or (firstMet listed q .pending)) := by
  simp [candidate, firstMet, List.head?_append, list_one]

theorem firstMet_eq_none {listed : Status → Scan} {status : Status}
    (scanned : q.store.db.Scanned (listed status).order (listed status).readable) :
    firstMet listed q status = none ↔ ∀ row, Holds q row → row.record.status ≠ status := by
  rw [firstMet, List.head?_eq_none_iff, List.eq_nil_iff_forall_not_mem]
  refine forall_congr' fun row => ?_
  rw [mem_scanned scanned]
  simp

theorem firstMet_holds {listed : Status → Scan} {status : Status} {row : Row}
    (scanned : q.store.db.Scanned (listed status).order (listed status).readable)
    (met : firstMet listed q status = some row) : Holds q row ∧ row.record.status = status := by
  have member := (mem_scanned scanned row).mp (List.mem_of_mem_head? met)
  simpa using member

/-- A row is evicted if it is the first one met of the first class that has rows. -/
theorem candidate_eq_some {listed : Status → Scan} {row : Row}
    (scanned : ∀ status, q.store.db.Scanned (listed status).order (listed status).readable) :
    candidate listed q = some row ↔ firstMet listed q row.record.status = some row ∧
      ∀ other, Holds q other → row.record.status.rank ≤ other.record.status.rank := by
  have none_ := fun status => firstMet_eq_none (scanned status)
  have own := fun status row => @firstMet_holds q listed status row (scanned status)
  rw [candidate_eq]
  simp only [Option.or_eq_some_iff]
  constructor
  · rintro (met | ⟨noSent, met | ⟨noExpired, met⟩⟩)
    · have status := (own .sent row met).2
      exact ⟨status ▸ met, fun other _ => by simp [status, Status.rank]⟩
    · have status := (own .expired row met).2
      refine ⟨status ▸ met, fun other holds => ?_⟩
      have apart := (none_ .sent).mp noSent other holds
      cases kind : other.record.status <;> simp_all [Status.rank]
    · have status := (own .pending row met).2
      refine ⟨status ▸ met, fun other holds => ?_⟩
      have apart := (none_ .sent).mp noSent other holds
      have later := (none_ .expired).mp noExpired other holds
      cases kind : other.record.status <;> simp_all [Status.rank]
  · rintro ⟨met, first⟩
    have below : ∀ status : Status, status.rank < row.record.status.rank →
        firstMet listed q status = none := by
      intro status lower
      refine (none_ status).mpr fun other holds same => ?_
      have bound := first other holds
      rw [same] at bound
      omega
    cases status : row.record.status with
    | sent => exact .inl (status ▸ met)
    | expired =>
      exact .inr ⟨below .sent (by rw [status]; decide), .inl (status ▸ met)⟩
    | pending =>
      exact .inr ⟨below .sent (by rw [status]; decide),
        .inr ⟨below .expired (by rw [status]; decide), status ▸ met⟩⟩

theorem candidate_eq_none {listed : Status → Scan}
    (scanned : ∀ status, q.store.db.Scanned (listed status).order (listed status).readable) :
    candidate listed q = none ↔ ∀ row, ¬ Holds q row := by
  rw [candidate_eq]
  simp only [Option.or_eq_none_iff, firstMet_eq_none (scanned _)]
  constructor
  · rintro ⟨sent, expired, pending⟩ row holds
    cases status : row.record.status with
    | sent => exact sent row holds status
    | expired => exact expired row holds status
    | pending => exact pending row holds status
  · intro empty
    exact ⟨fun row holds => absurd holds (empty row), fun row holds => absurd holds (empty row),
      fun row holds => absurd holds (empty row)⟩

theorem size_eq_zero {scan : Scan} (scanned : q.store.db.Scanned scan.order scan.readable) :
    size q = 0 ↔ ∀ row, ¬ Holds q row := by
  rw [size, Set.ncard_eq_zero (matching_finite _ scanned)]
  constructor
  · rintro empty row ⟨key, isRow, held⟩
    have member : key ∈ matching eventsTable (fun _ => true) q.store.db := ⟨isRow, row, held, rfl⟩
    rw [empty] at member
    exact member
  · intro none_
    refine Set.eq_empty_of_forall_notMem fun key member => ?_
    obtain ⟨isRow, row, held, -⟩ := member
    exact none_ row ⟨key, isRow, held⟩

/-- The row is under the key of its id. -/
theorem UnderIds.key_mem (under : UnderIds q) {row : Row} (holds : Holds q row) :
    row_key eventsTable (toId row.record.id) ∈ matching eventsTable (fun _ => true) q.store.db := by
  obtain ⟨key, isRow, held⟩ := holds
  obtain ⟨id, rfl, same⟩ := under key row isRow held
  rw [same, toId_toNat]
  exact ⟨isRow, row, held, rfl⟩

theorem UnderIds.delete (under : UnderIds q) {row : Row} (holds : Holds q row) (flash : Flash) :
    UnderIds (q.apply (.delete eventsTable (toId row.record.id) flash)) := by
  have there : q.store.db.kvs (row_key eventsTable (toId row.record.id)) ≠ none := by
    obtain ⟨-, other, held, -⟩ := under.key_mem holds
    intro gone
    rw [gone] at held
    cases held
  intro key other isRow held
  have after : (q.apply (.delete eventsTable (toId row.record.id) flash)).store.db =
      (hdb_delete eventsTable (toId row.record.id) flash q.store.db).1 := rfl
  rw [after, kvs_hdb_delete _ flash there] at held
  split at held
  · by_cases same : key = row_key eventsTable (toId row.record.id)
    · rw [same, Function.update_self] at held
      cases held
    · rw [Function.update_of_ne same] at held
      exact under key other isRow held
  · exact under key other isRow held

end Passes

/-! ### The rounds -/

theorem evictLoop_append (cfg : Config) (rounds : List Evict) (round : Evict) (q : Queue) :
    evictLoop cfg (rounds ++ [round]) q =
      if (evictLoop cfg rounds q).2 then evictLoop cfg rounds q
      else evictLoop cfg [round] (evictLoop cfg rounds q).1 := by
  induction rounds generalizing q with
  | nil => rfl
  | cons first rest ih =>
    simp only [List.cons_append, evictLoop]
    split
    · split
      · rfl
      · exact ih _
    · rfl

namespace Eviction

variable (e : Eviction cfg)

theorem after_succ (i : Nat) :
    e.after (i + 1) =
      if (e.after i).2 then e.after i else evictLoop cfg [e.rounds i] (e.after i).1 := by
  have more : (List.range (i + 1)).map e.rounds = (List.range i).map e.rounds ++ [e.rounds i] := by
    rw [List.range_succ, List.map_append, List.map_singleton]
  unfold after
  rw [more]
  exact evictLoop_append cfg _ _ e.queue

/-- What one more round does. -/
theorem round {i : Nat} (running : ¬ e.Ended i) (under : UnderIds (e.after i).1) :
    (e.Ended (i + 1) ↔ size (e.after i).1 < cfg.max_events ∨ size (e.after i).1 = 0) ∧
      (¬ e.Ended (i + 1) → size (e.after (i + 1)).1 + e.taken i = size (e.after i).1) ∧
      UnderIds (e.after (i + 1)).1 := by
  have going : (e.after i).2 = false := Bool.not_eq_true _ ▸ running
  have scanned : (e.rounds i).Scanned (e.after i).1 := e.scanned i going
  have next := e.after_succ i
  rw [going, if_neg Bool.false_ne_true] at next
  have counted := count_eq under scanned.counted
  rw [evictLoop, counted] at next
  by_cases full : size (e.after i).1 ≥ cfg.max_events
  · rw [if_pos full] at next
    have notBelow : ¬ size (e.after i).1 < cfg.max_events := by omega
    cases chosen : candidate (e.rounds i).listed (e.after i).1 with
    | none =>
      rw [chosen] at next
      have empty := (size_eq_zero scanned.counted).mpr
        ((candidate_eq_none scanned.listed).mp chosen)
      have ended : e.Ended (i + 1) := by
        rw [Ended, next]
      exact ⟨⟨fun _ => .inr empty, fun _ => ended⟩, fun goesOn => absurd ended goesOn,
        next ▸ under⟩
    | some row =>
      rw [chosen] at next
      have holds : Holds (e.after i).1 row :=
        (firstMet_holds (scanned.listed _) ((candidate_eq_some scanned.listed).mp chosen).1).1
      have goesOn : ¬ e.Ended (i + 1) := by
        rw [Ended, next]
        exact Bool.false_ne_true
      have some_ : size (e.after i).1 ≠ 0 := fun zero =>
        (size_eq_zero scanned.counted).mp zero row holds
      refine ⟨⟨fun ended => absurd ended goesOn, fun low => ?_⟩, fun _ => ?_, ?_⟩
      · rcases low with below | zero
        · exact absurd below notBelow
        · exact absurd zero some_
      · rw [next]
        exact ncard_hdb_delete (e.rounds i).flash (matching_finite _ scanned.counted)
          (under.key_mem holds)
      · rw [next]
        exact under.delete holds (e.rounds i).flash
  · rw [if_neg full] at next
    have ended : e.Ended (i + 1) := by
      rw [Ended, next]
    exact ⟨⟨fun _ => .inl (not_le.mp full), fun _ => ended⟩, fun goesOn => absurd ended goesOn,
      next ▸ under⟩

theorem stamped_after {i : Nat} (running : ¬ e.Ended i) : UnderIds (e.after i).1 := by
  induction i with
  | zero => exact e.under
  | succ i ih =>
    have before : ¬ e.Ended i := by
      intro ended
      apply running
      have still : (e.after i).2 = true := ended
      rw [Ended, e.after_succ i, if_pos still, still]
    exact (e.round before (ih before)).2.2

/-- The loop ends exactly when the deletions that succeed make the queue small enough. -/
theorem ends_iff :
    (∃ i, e.Ended i) ↔
      ∃ i, size e.queue - ((List.range i).map e.taken).sum < cfg.max_events ∨
        size e.queue - ((List.range i).map e.taken).sum = 0 :=
  drains_iff (fun i => size (e.after i).1) e.taken (fun left => left < cfg.max_events ∨ left = 0)
    Bool.false_ne_true (fun _ running => (e.round running (e.stamped_after running)).1)
    (fun _ running => (e.round running (e.stamped_after running)).2.1)

/-- A round evicts the oldest row exactly when the pass meets it first. -/
theorem evicts_oldest_iff (i : Nat) :
    (∀ row, e.evicts i = some row → Oldest (e.after i).1 row) ↔
      (¬ e.Ended i → cfg.max_events ≤ size (e.after i).1 →
        MeetsOldest (e.rounds i).listed (e.after i).1) := by
  by_cases ended : e.Ended i
  · have nothing : e.evicts i = none := if_pos (.inl ended)
    simp [nothing, ended]
  have going : (e.after i).2 = false := Bool.not_eq_true _ ▸ ended
  have scanned : (e.rounds i).Scanned (e.after i).1 := e.scanned i going
  have counted := count_eq (e.stamped_after ended) scanned.counted
  by_cases full : cfg.max_events ≤ size (e.after i).1
  swap
  · have nothing : e.evicts i = none := if_pos (.inr (by rw [counted]; omega))
    simp [nothing, full]
  have chosen : e.evicts i = candidate (e.rounds i).listed (e.after i).1 := by
    refine if_neg ?_
    rw [counted, not_or]
    exact ⟨ended, by omega⟩
  rw [chosen]
  constructor
  · intro oldest _ _ status row met first other holds same
    have own := (firstMet_holds (scanned.listed status) met).2
    have taken : candidate (e.rounds i).listed (e.after i).1 = some row := by
      rw [candidate_eq_some scanned.listed, own]
      exact ⟨met, first⟩
    rcases oldest row taken other holds with later | ⟨-, smaller⟩
    · rw [own, same] at later
      exact absurd later (Nat.lt_irrefl _)
    · exact smaller
  · intro meets row taken other holds
    obtain ⟨met, first⟩ := (candidate_eq_some scanned.listed).mp taken
    by_cases same : other.record.status = row.record.status
    · exact .inr ⟨same.symm, meets ended full row.record.status row met first other holds same⟩
    · refine .inl (Nat.lt_of_le_of_ne (first other holds) fun ranks => ?_)
      exact same (Status.rank_inj ranks.symm)

end Eviction

/-- The eviction of an enqueue comes to its end exactly when enough deletions succeed, and evicts
the oldest rows exactly when its passes meet them first; and the deletion of all rows that match
comes to its end exactly when enough deletions succeed. -/
theorem evictions_iff (cfg : Config) (e : Eviction cfg) {R : Type} (t : Table R) (accept : R → Bool)
    (d : Deletion t accept) :
    ((∃ i, e.Ended i) ↔
      ∃ i, size e.queue - ((List.range i).map e.taken).sum < cfg.max_events ∨
        size e.queue - ((List.range i).map e.taken).sum = 0) ∧
    (∀ i, (∀ row, e.evicts i = some row → Oldest (e.after i).1 row) ↔
      (¬ e.Ended i → cfg.max_events ≤ size (e.after i).1 →
        MeetsOldest (e.rounds i).listed (e.after i).1)) ∧
    ((∃ i, d.Ended i) ↔
      ∃ i, (matching t accept d.db).ncard - ((List.range i).map d.taken).sum < Db.batch) :=
  ⟨e.ends_iff, e.evicts_oldest_iff, d.ends_iff⟩

/-! ### A queue that no row leaves -/

def someRow (id : Nat) : Row :=
  { record := { id, msg_id := "", service := "", event_type := "", envelope := "", created_ms := 0
                expiry_ms := 0, created_ts := 0 }
    event := 0, boot := 0, born := 0 }

/-- Two rows, of which the passes meet the younger one first, and no deletion succeeds. -/
def stuckQueue : Queue :=
  { store :=
      { db :=
          { kvs := fun key =>
              if key = row_key eventsTable 2 then some (.row (someRow 2))
              else if key = row_key eventsTable 1 then some (.row (someRow 1))
              else none
            preDeleted := [] }
        rows := [] } }

def stuckScan : Scan := { order := [row_key eventsTable 2, row_key eventsTable 1] }

def stuckRound : Evict :=
  { counted := stuckScan, listed := fun _ => stuckScan, flash := { rowWrite := .refused } }

theorem stuck_scanned : stuckQueue.store.db.Scanned stuckScan.order stuckScan.readable where
  nodup := by decide
  found := by
    intro key
    have rows : key ∈ stuckScan.order ↔
        key = row_key eventsTable 2 ∨ key = row_key eventsTable 1 := by
      simp [stuckScan]
    rw [rows]
    unfold stuckQueue
    by_cases second : key = row_key eventsTable 2
    · simp [second]
    by_cases first : key = row_key eventsTable 1
    · simp only [first, or_true, if_true, true_iff]
      split <;> exact nofun
    · simp [first, second]
  read := fun _ => rfl

theorem stuck_candidate : candidate (fun _ => stuckScan) stuckQueue = some (someRow 2) := by
  decide

theorem stuck_after (n : Nat) :
    evictLoop { max_events := 2 } (List.replicate n stuckRound) stuckQueue =
      (stuckQueue, false) := by
  induction n with
  | zero => rfl
  | succ n ih =>
    have full : count (fun _ => true) stuckRound.counted stuckQueue ≥ 2 := by
      decide
    have same : stuckQueue.apply (.delete eventsTable (toId (someRow 2).record.id)
        stuckRound.flash) = stuckQueue := by
      have kept : (hdb_delete eventsTable (toId (someRow 2).record.id) stuckRound.flash
          stuckQueue.store.db).1 = stuckQueue.store.db := hdb_delete_fails _ rfl
      exact congrArg (fun db => { stuckQueue with store := { stuckQueue.store with db } }) kept
    rw [List.replicate_succ, evictLoop, if_pos full]
    have chosen : candidate stuckRound.listed stuckQueue = some (someRow 2) := stuck_candidate
    rw [chosen]
    simp only [same]
    exact ih

/-- The eviction of an enqueue into this queue. -/
def stuck : Eviction { max_events := 2 } where
  queue := stuckQueue
  under := by
    intro key row _ held
    unfold stuckQueue at held
    simp only at held
    split at held
    next own =>
      cases held
      exact ⟨2, own, rfl⟩
    next =>
      split at held
      next own =>
        cases held
        exact ⟨1, own, rfl⟩
      next => cases held
  rounds := fun _ => stuckRound
  scanned := by
    intro i _
    rw [List.map_const', stuck_after]
    exact ⟨stuck_scanned, fun _ => stuck_scanned⟩

/-- The loop never ends, and the row that it is about to evict is not the oldest one. -/
theorem stuck_queue :
    (∀ i, ¬ stuck.Ended i) ∧ stuck.evicts 0 = some (someRow 2) ∧
      ¬ Oldest stuckQueue (someRow 2) := by
  refine ⟨fun i ended => ?_, by decide, fun oldest => ?_⟩
  · rw [Eviction.Ended, Eviction.after, stuck, List.map_const', stuck_after] at ended
    cases ended
  · have held : Holds stuckQueue (someRow 1) :=
      ⟨row_key eventsTable 1, by decide, by decide⟩
    rcases oldest _ held with later | ⟨-, smaller⟩
    · exact absurd later (by decide)
    · exact absurd smaller (by decide)

end HelixKit.Esp32.EventQueue
