/-
Purpose: Which pending events a sweep tries to publish and which it expires, in runs
  with reboots, after which the clock starts again.
Trusted boundary: none
Main exports: sweeps_serve
-/
import HelixKit.Esp32.Deliveries

namespace HelixKit.Esp32.EventQueue

open HelixKit.Esp32.Db
open HelixKit.Runs

variable {cfg : Config}

/-! ### What a sweep owes -/

/-- The device has been powered on for the row's TTL since it was enqueued. -/
def ttlPassed (q : Queue) (row : Row) : Prop :=
  row.record.expiry_ms > 0 ∧
    q.poweredOn - row.born ≥ row.record.expiry_ms - row.record.created_ms

/-- The device has been powered on for the row's back-off since its last attempt, or,
when that was in an earlier boot, for the longest back-off since this boot. -/
def backoffElapsed (q : Queue) (row : Row) : Prop :=
  ∀ boot time, row.attempted = some (boot, time) →
    q.poweredOn - time ≥ backoff_ms row.record.attempts ∨
      boot ≠ q.boot ∧ q.clock ≥ backoffCapMs

/-- The row with the status that ends its retries. -/
def expire (row : Row) : Row := { row with record := { row.record with status := .expired } }

/-- Of the rows that are pending once the waiting deliveries are marked, those past
their TTL are expired, and of the others every due one is tried if the device is
online. -/
def Serves (q : Queue) : Op → Prop
  | .sweep env => ∀ id row,
      (drain_deliveries env.marks q).store.db.kvs (row_key eventsTable id) = some (.row row) →
      row.record.status = .pending →
        (ttlPassed q row →
          (sweepPending env q).1.store.db.kvs (row_key eventsTable id) = some (.row (expire row))) ∧
        (env.online = true → ¬ ttlPassed q row → backoffElapsed q row →
          row ∈ (sweepPending env q).2.tried)
  | _ => True

/-- The flash works: the pass over the entries finds and reads every row, and rows
are written back. -/
structure FlashWorks (env : SweepEnv) (q : Queue) : Prop where
  reached : ∀ id row, q.store.db.kvs (row_key eventsTable id) = some (.row row) →
    row_key eventsTable id ∈ env.pending.order
  readable : ∀ key, env.pending.readable key = true
  written : ∀ i, (env.visits i).flash = {}

/-- No more rows are pending than one sweep looks at, and each was enqueued since the
device booted. -/
def Prompt (q : Queue) : Op → Prop
  | .sweep env =>
    FlashWorks env (drain_deliveries env.marks q) ∧
      count (·.record.status = .pending) env.pending (drain_deliveries env.marks q) ≤ sweepBatch ∧
      ∀ id row,
        (drain_deliveries env.marks q).store.db.kvs (row_key eventsTable id) = some (.row row) →
        row.record.status = .pending → row.boot = q.boot
  | _ => True

/-! ### The times in a row -/

/-- The times that a row of this boot has are times of the clock. -/
structure Stamped (boot : Nat) (earlier : Int) (row : Row) : Prop where
  boot_le : row.boot ≤ boot
  created : row.boot = boot → row.record.created_ms = row.born - earlier
  never : row.attempted = none → row.record.last_attempt_ms = 0
  tried : row.boot = boot → ∀ b time, row.attempted = some (b, time) →
    b = boot ∧ row.record.last_attempt_ms = time - earlier

/-- Every row is under its id, and has times that are stamped. -/
def RowStamped (boot : Nat) (earlier : Int) (key : Key) (blob : Blob Row) : Prop :=
  ∀ row, blob = .row row → Stamped boot earlier row ∧
    ∃ id, key = row_key eventsTable id ∧ row.record.id = id.toNat

/-- The invariant of a run. -/
def AllStamped (q : Queue) : Prop := q.store.db.All (RowStamped q.boot q.earlier)

section Steps

variable {q : Queue}

/-- A row under the key of an id has that id. -/
theorem AllStamped.own (all : AllStamped q) {id : UInt32} {row : Row}
    (found : q.store.db.kvs (row_key eventsTable id) = some (.row row)) : row.record.id = id.toNat := by
  obtain ⟨-, other, key, own⟩ := all.live found row rfl
  rw [(row_key_inj events_fits events_fits key).2]
  exact own

variable {row : Row}

theorem AllStamped.update (all : AllStamped q) (stamped : Stamped q.boot q.earlier row)
    (id : UInt32) (flash : Flash) : AllStamped (q.apply (.update eventsTable id row flash)) := by
  refine all_step all ?_
  intro stored holds
  cases holds
  exact ⟨⟨stamped.boot_le, stamped.created, stamped.never, stamped.tried⟩, id, rfl, rfl⟩

theorem AllStamped.clearRows (all : AllStamped q) (deletes : List (UInt32 × Flash)) :
    AllStamped (clearRows deletes q) := by
  induction deletes generalizing q with
  | nil => exact all
  | cons delete rest ih =>
    have gone : AllStamped (q.apply (.delete eventsTable delete.1 delete.2)) := all_step all trivial
    exact ih gone

theorem AllStamped.deleted (all : AllStamped q) {after : Queue} (deleted : Deleted q after) :
    AllStamped after := by
  obtain ⟨deletes, rfl⟩ := deleted
  exact all.clearRows deletes

theorem AllStamped.mark_sent (all : AllStamped q) (row_id : Int) (mark : Mark) :
    AllStamped (mark_sent row_id mark q) := by
  unfold EventQueue.mark_sent
  cases found : hdb_get eventsTable (toId row_id) mark.readable q.store.db with
  | none => exact all
  | some row =>
    dsimp only
    split
    · obtain ⟨blob, got, holds⟩ := Option.bind_eq_some_iff.1 found
      cases blob with
      | seq next => cases holds
      | row stored =>
        cases holds
        have stamped := (all.live (Kvdb.get_blob_some got) row rfl).1
        refine all.update ?_ _ _
        exact ⟨stamped.boot_le, stamped.created, stamped.never, stamped.tried⟩
    · exact all

theorem AllStamped.deliver (all : AllStamped q) (delivery : Delivery) (mark : Mark) :
    AllStamped (deliver delivery mark q) := by
  unfold EventQueue.deliver
  cases delivery with
  | byRow id =>
    dsimp only
    split
    · exact all.mark_sent id mark
    · exact all
  | byMsg msg_id =>
    have without : AllStamped { q with inflight := (inflight_take msg_id q.inflight).1 } := all
    dsimp only
    split
    · exact without
    split
    · exact without.mark_sent _ mark
    · exact without

theorem AllStamped.deliverAll (all : AllStamped q) (marks : Nat → Mark) (i : Nat)
    (deliveries : List Delivery) : AllStamped (deliverAll marks i deliveries q) := by
  induction deliveries generalizing i q with
  | nil => exact all
  | cons delivery rest ih => exact ih (all.deliver delivery (marks i)) (i + 1)

theorem AllStamped.drain (all : AllStamped q) (marks : Nat → Mark) :
    AllStamped (drain_deliveries marks q) := by
  have emptied : AllStamped { q with ring := [] } := all
  exact emptied.deliverAll marks 0 q.ring

theorem AllStamped.listed (all : AllStamped q) {status : Status} {limit max_rows : Nat} {scan : Scan}
    (member : row ∈ list status limit max_rows scan q) :
    Stamped q.boot q.earlier row ∧ ∃ id, row.record.id = id.toNat ∧
      q.store.db.kvs (row_key eventsTable id) = some (.row row) := by
  obtain ⟨key, blob, -, found, holds, -⟩ := mem_hdb_select member
  cases blob with
  | seq next => cases holds
  | row stored =>
    cases holds
    obtain ⟨stamped, id, rfl, own⟩ := all.live found row rfl
    exact ⟨stamped, id, own, found⟩

theorem AllStamped.sweepRow (all : AllStamped q) {row : Row} (stamped : Stamped q.boot q.earlier row)
    (online : Bool) (visit : Visit) (swept : Swept) :
    AllStamped (sweepRow online row visit q swept).1 := by
  unfold EventQueue.sweepRow
  dsimp only
  split
  · refine all.update ?_ _ _
    exact ⟨stamped.boot_le, stamped.created, stamped.never, stamped.tried⟩
  split
  · split
    · exact all
    next msg_id published =>
    have sending : AllStamped { q.publish msg_id (some row.event) with
      inflight := inflight_add { msg_id, row_id := row.record.id } q.inflight } := all
    refine sending.update ?_ _ _
    refine ⟨stamped.boot_le, stamped.created, ?_, ?_⟩
    · intro never
      cases never
    · intro here b time attempted
      cases attempted
      refine ⟨rfl, ?_⟩
      simp only [Queue.publish, Queue.poweredOn]
      omega
  · exact all

theorem AllStamped.sweepRows (all : AllStamped q) {rows : List Row}
    (stamped : ∀ row ∈ rows, Stamped q.boot q.earlier row) (online : Bool) (visits : Nat → Visit)
    (i : Nat) (swept : Swept) : AllStamped (sweepRows online visits i rows q swept).1 := by
  induction rows generalizing i q swept with
  | nil => exact all
  | cons row rest ih =>
    obtain ⟨db, inflight, published, same, -⟩ := sweepRow_same online row (visits i) q swept
    unfold EventQueue.sweepRows
    dsimp only
    refine ih (all.sweepRow (stamped row List.mem_cons_self) online (visits i) swept) ?_ _ _
    rw [same]
    exact fun later member => stamped later (List.mem_cons_of_mem _ member)

theorem AllStamped.step {op : Op} (all : AllStamped q) : AllStamped (step cfg q op) := by
  cases op with
  | enqueue event env =>
    simp only [EventQueue.step, helix_event_queue_enqueue]
    split
    · exact all
    have counted : AllStamped { q with counter := q.counter + 1 } := all
    have deleted := evictLoop_deleted cfg env.rounds { q with counter := q.counter + 1 }
    have evicted := counted.deleted deleted
    obtain ⟨db, same, -⟩ := deleted.same
    rw [same] at evicted ⊢
    split
    · refine all_step evicted ⟨?_, ?_⟩
      · intro stored holds
        cases holds
      · intro stored holds
        cases holds
        refine ⟨⟨Nat.le_refl _, ?_, fun _ => rfl, ?_⟩, _, rfl, rfl⟩
        · intro here
          change q.clock = q.earlier + q.clock - q.earlier
          omega
        · intro here b time attempted
          cases attempted
    · exact evicted
  | sweep env =>
    have drained := all.drain env.marks
    have stamped : ∀ row ∈ batch env (drain_deliveries env.marks q),
        Stamped (drain_deliveries env.marks q).boot (drain_deliveries env.marks q).earlier row :=
      fun row member => (drained.listed member).1
    have swept := drained.sweepRows stamped env.online env.visits 0 {}
    exact swept.deleted (cleanup_terminal_deleted cfg env (sweepPending env q).1)
  | publishOther msg_id => exact all
  | ack i =>
    simp only [EventQueue.step]
    split
    · exact all
    · simp only [ring_push]
      split <;> exact all
  | simulate_delivery id =>
    simp only [EventQueue.step, ring_push]
    split <;> exact all
  | clear deletes => exact all.clearRows deletes
  | tick ms => exact all
  | reboot chosen =>
    refine (all.mono ?_).recover chosen
    intro key blob rows row holds
    obtain ⟨stamped, own⟩ := rows row holds
    have before := stamped.boot_le
    refine ⟨⟨Nat.le_succ_of_le before, ?_, stamped.never, ?_⟩, own⟩
    · intro here
      change row.boot = q.boot + 1 at here
      omega
    · intro here
      change row.boot = q.boot + 1 at here
      omega

/-! ### What a sweep does to one row -/

variable {online : Bool}

theorem tried_sweepRow {visit : Visit} {swept : Swept} {tried : Row}
    (already : tried ∈ swept.tried) : tried ∈ (sweepRow online row visit q swept).2.tried := by
  unfold sweepRow
  dsimp only
  split
  · exact already
  split
  · split
    · exact List.mem_append_left _ already
    · exact List.mem_append_left _ already
  · exact already

variable {visits : Nat → Visit}

theorem tried_sweepRows {i : Nat} {rows : List Row} {swept : Swept}
    {tried : Row} (already : tried ∈ swept.tried) :
    tried ∈ (sweepRows online visits i rows q swept).2.tried := by
  induction rows generalizing i q swept with
  | nil => exact already
  | cons row rest ih => exact ih (tried_sweepRow already)

/-- A row that is due is tried. -/
theorem sweepRows_tries {i : Nat} {rows : List Row} {swept : Swept}
    (member : row ∈ rows) (live : pastTtl q.clock row.record = false)
    (isDue : due q.clock row.record = true) :
    row ∈ (sweepRows true visits i rows q swept).2.tried := by
  induction rows generalizing i q swept with
  | nil => cases member
  | cons first rest ih =>
    obtain ⟨db, inflight, published, same, -⟩ := sweepRow_same true first (visits i) q swept
    rcases List.mem_cons.1 member with rfl | later
    · have now : row ∈ (sweepRow true row (visits i) q swept).2.tried := by
        unfold sweepRow
        dsimp only
        rw [if_neg (by simp [live]), if_pos ⟨rfl, isDue⟩]
        cases (visits i).publish with
        | none | some msg_id => exact List.mem_append_right _ List.mem_cons_self
      unfold sweepRows
      exact tried_sweepRows now
    · unfold sweepRows
      dsimp only
      apply ih later
      · rw [same]
        exact live
      · rw [same]
        exact isDue

/-- A visit leaves the rows alone that have other ids. -/
theorem sweepRow_elsewhere (online : Bool) {row : Row} (visit : Visit) (swept : Swept) {id : UInt32}
    (different : toId row.record.id ≠ id) :
    (sweepRow online row visit q swept).1.store.db.kvs (row_key eventsTable id) =
      q.store.db.kvs (row_key eventsTable id) := by
  have keys : row_key eventsTable id ≠ row_key eventsTable (toId row.record.id) :=
    fun same => different (row_key_inj events_fits events_fits same).2.symm
  unfold sweepRow
  dsimp only
  split
  · exact hdb_update_ne keys
  split
  · split
    · rfl
    · exact hdb_update_ne keys
  · rfl

/-- A visit of a row past its TTL, while there is an entry for it. -/
theorem sweepRow_expires (online : Bool) {visit : Visit} (swept : Swept) {id : UInt32}
    (own : row.record.id = id.toNat) (elapsed : pastTtl q.clock row.record = true)
    (works : visit.flash = {}) {old : Blob Row}
    (there : q.store.db.kvs (row_key eventsTable id) = some old) :
    (sweepRow online row visit q swept).1.store.db.kvs (row_key eventsTable id) =
      some (.row (expire row)) := by
  unfold sweepRow
  simp only [elapsed, own, toId_toNat, works, if_true]
  unfold Queue.apply Db.step
  simp only [hdb_update, Kvdb.get_blob, there, if_true, Kvdb.set_blob, Function.update_self]
  simp only [eventsTable, expire, own]

theorem sweepRows_expires (works : ∀ i, (visits i).flash = {})
    {i : Nat} {rows : List Row} {swept : Swept} {id : UInt32}
    (own : row.record.id = id.toNat) (elapsed : pastTtl q.clock row.record = true)
    (one : ∀ other ∈ rows, toId other.record.id = id → other = row) {old : Blob Row}
    (there : q.store.db.kvs (row_key eventsTable id) = some old)
    (covered : row ∈ rows ∨ old = .row (expire row)) :
    (sweepRows online visits i rows q swept).1.store.db.kvs (row_key eventsTable id) =
      some (.row (expire row)) := by
  induction rows generalizing i q swept old with
  | nil =>
    rcases covered with member | rfl
    · cases member
    · exact there
  | cons first rest ih =>
    obtain ⟨db, inflight, published, same, -⟩ := sweepRow_same online first (visits i) q swept
    have clock : (sweepRow online first (visits i) q swept).1.clock = q.clock := by rw [same]
    have others : ∀ other ∈ rest, toId other.record.id = id → other = row :=
      fun other member => one other (List.mem_cons_of_mem _ member)
    unfold sweepRows
    dsimp only
    by_cases here : toId first.record.id = id
    · have isRow := one first List.mem_cons_self here
      subst isRow
      have expired := sweepRow_expires online swept own elapsed (works i) there
      exact ih (clock ▸ elapsed) others expired (Or.inr rfl)
    · have kept := @sweepRow_elsewhere q online first (visits i) swept id here
      refine ih (clock ▸ elapsed) others (kept.trans there) ?_
      rcases covered with member | already
      · rcases List.mem_cons.1 member with rfl | later
        · exact absurd (by rw [own, toId_toNat]) here
        · exact Or.inl later
      · exact Or.inr already

end Steps

/-! ### Runs -/

theorem allStamped_start : AllStamped Queue.start := by
  constructor
  · intro key blob found
    cases found
  · intro entry member
    cases member

section Serving

variable {q : Queue}

/-- The clocks agree about a row of this boot. -/
theorem Stamped.pastTtl {row : Row} (stamped : Stamped q.boot q.earlier row) (here : row.boot = q.boot) :
    pastTtl q.clock row.record = true ↔ ttlPassed q row := by
  have created := stamped.created here
  unfold EventQueue.pastTtl ttlPassed Queue.poweredOn
  rw [decide_eq_true_iff, created]
  omega

theorem Stamped.due {row : Row} (stamped : Stamped q.boot q.earlier row) (here : row.boot = q.boot)
    (elapsed : backoffElapsed q row) : due q.clock row.record = true := by
  unfold EventQueue.due
  rw [decide_eq_true_iff]
  cases attempted : row.attempted with
  | none => exact Or.inl (stamped.never attempted)
  | some last =>
    obtain ⟨boot, time⟩ := last
    obtain ⟨same, stamp⟩ := stamped.tried here boot time attempted
    rcases elapsed boot time attempted with passed | ⟨another, -⟩
    · right
      unfold Queue.poweredOn at passed
      omega
    · exact absurd same another

/-- A sweep with a batch that holds every pending row serves them. -/
theorem serves_sweep {env : SweepEnv} (all : AllStamped q) (prompt : Prompt q (.sweep env)) :
    Serves q (.sweep env) := by
  obtain ⟨works, few, young⟩ := prompt
  intro id row found pending
  have drained := all.drain env.marks
  obtain ⟨store, inflight, same, -⟩ := deliverAll_same env.marks 0 q.ring { q with ring := [] }
  have clock : (drain_deliveries env.marks q).clock = q.clock := by
    unfold drain_deliveries
    rw [same]
  obtain ⟨stamped, -⟩ := drained.live found row rfl
  have stampedNow : Stamped q.boot q.earlier row := by
    have times := stamped
    unfold drain_deliveries at times
    rw [same] at times
    exact times
  have here := young id row found pending
  have member : row ∈ batch env (drain_deliveries env.marks q) := by
    apply mem_hdb_select_of_all few (Nat.le_refl _)
    exact mem_scanRows (works.reached id row found)
      (isRowKey_row_key id (row_key_fits events_fits id)) (works.readable _) found
      (decide_eq_true pending)
  have one : ∀ other ∈ batch env (drain_deliveries env.marks q), toId other.record.id = id →
      other = row := by
    intro other listed sameId
    obtain ⟨-, other_id, own, there⟩ := drained.listed listed
    rw [own, toId_toNat] at sameId
    rw [sameId, found] at there
    cases there
    rfl
  constructor
  · intro elapsed
    have past := (stampedNow.pastTtl here).2 elapsed
    rw [← clock] at past
    exact sweepRows_expires works.written (drained.own found) past one found (Or.inl member)
  · intro online live elapsed
    have notPast : pastTtl (drain_deliveries env.marks q).clock row.record = false := by
      rw [clock]
      exact Bool.eq_false_iff.2 fun past => live ((stampedNow.pastTtl here).1 past)
    have isDue := stampedNow.due here elapsed
    rw [← clock] at isDue
    unfold sweepPending
    rw [online]
    exact sweepRows_tries member notPast isDue

end Serving

/-- In every run in which each sweep finds a working flash, no more pending rows than
its batch holds, and none from an earlier boot, each sweep serves every pending row. -/
theorem sweeps_serve (cfg : Config) {ops : List Op}
    (prompt : Along (step cfg) Prompt Queue.start ops) :
    Along (step cfg) Serves Queue.start ops := by
  refine Along.always AllStamped (fun _ _ all _ => all.step) ?_ allStamped_start prompt
  intro q op all prompt
  cases op with
  | sweep env => exact serves_sweep all prompt
  | enqueue event env | publishOther msg_id | ack i | simulate_delivery id | clear deletes | tick ms
  | reboot chosen => trivial

/-! ### A reboot, and a batch that is too small -/

/-- The first event is stored. -/
def enqueueFirst : Op :=
  .enqueue doorOpened { rounds := [{ counted := firstRow, listed := fun _ => firstRow }] }

theorem enqueueFirst_kvs :
    (step {} Queue.start enqueueFirst).store.db.kvs =
      Function.update (Function.update (fun _ => none) (seq_key eventsTable) (some (.seq 2)))
        (row_key eventsTable 1) (some (.row (eventsTable.stamp_id 1 (newRow {} doorOpened .start)))) :=
  rfl

theorem sweeps_serve_first :
    Along (step {}) Serves Queue.start [enqueueFirst, sweepWith (some 1)] := by
  -- the one row has the id 1
  have only : ∀ id row,
      (step {} Queue.start enqueueFirst).store.db.kvs (row_key eventsTable id) = some (.row row) →
        id = 1 ∧ row.boot = 0 := by
    intro id row found
    rw [enqueueFirst_kvs] at found
    by_cases first : id = 1
    · subst first
      rw [Function.update_self] at found
      cases found
      exact ⟨rfl, rfl⟩
    · have otherKey : row_key eventsTable id ≠ row_key eventsTable 1 :=
        fun same => first (row_key_inj events_fits events_fits same).2
      rw [Function.update_of_ne otherKey,
        Function.update_of_ne (row_key_ne_seq_key events_fits events_fits id)] at found
      cases found
  apply sweeps_serve
  refine ⟨trivial, ⟨⟨?_, fun _ => rfl, ?_⟩, by decide, ?_⟩, trivial⟩
  · intro id row found
    rw [(only id row found).1]
    exact List.mem_cons_self
  · intro i
    by_cases first : i = 0 <;> simp [first]
  · intro id row found _
    exact (only id row found).2

/-- An event is tried after ten minutes, and the device reboots; it has been on for the
longest back-off since. -/
def rebooted : Queue :=
  run (step {}) Queue.start ([.tick 600000] ++ firstPublished ++ [.reboot [], .tick 300000])

/-- Seventeen events. -/
def seventeen : Queue := run (step {}) Queue.start (List.replicate 17 enqueueFirst)

/-- A sweep of seventeen events. -/
def seventeenRows : SweepEnv :=
  let scan : Scan := { order := (List.range 17).map fun i => row_key eventsTable (UInt32.ofNat (i + 1)) }
  { pending := scan, sent := scan, expired := scan }

instance (q : Queue) (row : Row) : Decidable (ttlPassed q row) :=
  inferInstanceAs (Decidable (_ ∧ _))

/-- A row that is due and is not tried. -/
theorem not_serves {q : Queue} {env : SweepEnv} (id : UInt32) (last : Option (Nat × Int))
    (there : (hdb_get eventsTable id true (drain_deliveries env.marks q).store.db).any
      (fun row => row.record.status = .pending ∧ ¬ ttlPassed q row ∧ row.attempted = last ∧
        row ∉ (sweepPending env q).2.tried) = true)
    (elapsed : ∀ boot time, last = some (boot, time) → boot ≠ q.boot ∧ q.clock ≥ backoffCapMs)
    (online : env.online = true) : ¬ Serves q (.sweep env) := by
  intro serves
  obtain ⟨row, got, holds⟩ := (Option.any_eq_true _ _).1 there
  obtain ⟨pending, live, attempted, untried⟩ := of_decide_eq_true holds
  obtain ⟨blob, found, isRow⟩ := Option.bind_eq_some_iff.1 got
  cases blob with
  | seq next => cases isRow
  | row stored =>
    cases isRow
    have isElapsed : backoffElapsed q row := fun boot time own =>
      Or.inr (elapsed boot time (attempted.symm.trans own))
    exact untried ((serves id row (Kvdb.get_blob_some found) pending).2 online live isElapsed)

/-- Neither the event from the earlier boot nor the last of the seventeen is tried. -/
theorem sweeps_starve :
    ¬ Serves rebooted (sweepWith none) ∧ ¬ Serves seventeen (.sweep seventeenRows) := by
  constructor
  · apply not_serves 1 (some (0, 600000))
    · decide
    · rintro boot time ⟨⟩
      decide
    · rfl
  · apply not_serves 17 none
    · decide +kernel
    · intro boot time none
      cases none
    · rfl

end HelixKit.Esp32.EventQueue
