/-
Purpose: Which events are marked as sent, in runs in which message ids are reused.
Trusted boundary: none
Main exports: sent_acked
-/
import HelixKit.Esp32.EventQueue

namespace HelixKit.Esp32.EventQueue

open HelixKit.Esp32.Db
open HelixKit.Runs

variable {cfg : Config}

/-- No entry of the in-flight table has the message id. -/
def Unused (q : Queue) (msg_id : Int) : Prop :=
  ∀ entry, some entry ∈ q.inflight → entry.msg_id ≠ msg_id

instance (q : Queue) (msg_id : Int) : Decidable (Unused q msg_id) :=
  decidable_of_iff (∀ slot ∈ q.inflight, ∀ entry ∈ slot, entry.msg_id ≠ msg_id)
    ⟨fun all entry member => all (some entry) member entry rfl,
      fun unused _ member entry there => unused entry (Option.mem_def.1 there ▸ member)⟩

/-- A message gets an id that no entry of the in-flight table has, the broker
acknowledges the last message with an id, the store keeps its sequence, and no
delivery is simulated. -/
def MessageIdsKept (cfg : Config) (q : Queue) : Op → Prop
  | .enqueue event env => SequenceKept q.store (.insert eventsTable (newRow cfg event q) env.flash)
  | .sweep env =>
    (∀ i msg_id, (env.visits i).publish = some msg_id → Unused q msg_id) ∧
      ∀ i j msg_id, (env.visits i).publish = some msg_id →
        (env.visits j).publish = some msg_id → i = j
  | .publishOther msg_id => Unused q msg_id
  | .ack i => ∀ msg_id event, q.published[i]? = some (msg_id, event) →
      q.published.lookup msg_id = some event
  | .simulate_delivery _ => False
  | .clear _ | .tick _ | .reboot _ => True

/-- Of every event that is marked as sent, the broker has acknowledged a publish. -/
def SentAcked (q : Queue) : Prop :=
  ∀ id row, q.store.db.kvs (row_key eventsTable id) = some (.row row) →
    row.record.status = .sent → row.event ∈ q.acked

/-! ### The invariant -/

theorem events_fits : eventsTable.Fits := by
  unfold Table.Fits
  decide

section Invariant

variable (f : UInt32 → Nat)

/-- The row has its id, is of the event that the id stands for, and is marked as
sent only if that was acknowledged. -/
structure RowOk (acked : List Nat) (id : UInt32) (row : Row) : Prop where
  id_eq : row.record.id = id.toNat
  event_eq : row.event = f id
  sent : row.record.status = .sent → row.event ∈ acked

/-- What is stored under the key of a row is a row for it. -/
def RowsOk (acked : List Nat) (key : Key) (blob : Blob Row) : Prop :=
  ∀ id row, key = row_key eventsTable id → blob = .row row → RowOk f acked id row

/-- The entry is for a row, and the last message with its id is of that row's event. -/
def EntryOk (q : Queue) (entry : Inflight) : Prop :=
  ∃ id : UInt32, entry.row_id = id.toNat ∧ (eventsTable.name, id) ∈ q.store.rows ∧
    q.published.lookup entry.msg_id = some (some (f id))

structure Inv (q : Queue) : Prop where
  store : Db.Inv q.store
  events : ∀ taken ∈ q.store.rows, taken.1 = eventsTable.name
  rows : q.store.db.All (RowsOk f q.acked)
  entries : ∀ entry, some entry ∈ q.inflight → EntryOk f q entry

end Invariant

/-- What waits to be delivered for an entry was acknowledged for its event. -/
structure Waiting (q : Queue) (deliveries : List Delivery) : Prop where
  byMsg : ∀ {msg_id entry event}, .byMsg msg_id ∈ deliveries → some entry ∈ q.inflight →
    entry.msg_id = msg_id → q.published.lookup msg_id = some (some event) → event ∈ q.acked
  byRow : ∀ id, .byRow id ∉ deliveries

variable {row : Row}

/-- What an id stands for matters to the rows that have it. -/
theorem RowOk.elsewhere {f : UInt32 → Nat} {acked : List Nat} {id other : UInt32}
    (ok : RowOk f acked id row) (different : id ≠ other) (event : Nat) :
    RowOk (Function.update f other event) acked id row :=
  ⟨ok.id_eq, by rw [Function.update_of_ne different]; exact ok.event_eq, ok.sent⟩

@[simp] theorem toId_toNat (id : UInt32) : toId (id.toNat : Int) = id := by
  apply UInt32.toNat_inj.1
  have small := id.toNat_lt
  unfold toId
  rw [UInt32.toNat_ofNat_of_lt']
  · omega
  · simp only [UInt32.size]
    omega

namespace Inv

variable {f : UInt32 → Nat} {q : Queue}

theorem rowOk (inv : Inv f q) {id : UInt32}
    (found : q.store.db.kvs (row_key eventsTable id) = some (.row row)) : RowOk f q.acked id row :=
  inv.rows.live found id row rfl rfl

/-- The key of a row of the table is one that was given out. -/
theorem key (inv : Inv f q) {key : Key} {row : Row} (found : q.store.db.kvs key = some (.row row)) :
    ∃ id, key = row_key eventsTable id := by
  rcases inv.store.entries found with ⟨_, _, _, _, holds⟩ | ⟨t, -, id, same, member⟩
  · cases holds
  · exact ⟨id, same.trans (row_key_name (inv.events _ member) id)⟩

theorem listed (inv : Inv f q) {status : Status} {limit max_rows : Nat} {scan : Scan}
    (member : row ∈ list status limit max_rows scan q) :
    ∃ id, q.store.db.kvs (row_key eventsTable id) = some (.row row) ∧ row.record.status = status := by
  obtain ⟨key, blob, -, found, holds, accepted⟩ := mem_hdb_select member
  cases blob with
  | seq next => cases holds
  | row stored =>
    cases holds
    obtain ⟨id, rfl⟩ := inv.key found
    exact ⟨id, found, of_decide_eq_true accepted⟩

/-- The invariant speaks of the store, and of what else only of the entries and of
what was acknowledged. -/
theorem transfer (inv : Inv f q) {after : Queue} (store : after.store = q.store)
    (acked : q.acked ⊆ after.acked)
    (entries : ∀ entry, some entry ∈ after.inflight → EntryOk f after entry) : Inv f after := by
  refine ⟨store ▸ inv.store, store ▸ inv.events, ?_, entries⟩
  rw [store]
  refine inv.rows.mono fun key blob ok id row own holds => ?_
  have rowOk := ok id row own holds
  exact ⟨rowOk.id_eq, rowOk.event_eq, fun sent => acked (rowOk.sent sent)⟩

/-- A row is written back for the same event. -/
theorem update (inv : Inv f q) {id : UInt32} {row : Row} (event : row.event = f id)
    (sent : row.record.status = .sent → row.event ∈ q.acked) (flash : Flash) :
    Inv f (q.apply (.update eventsTable id row flash)) := by
  have kept : SequenceKept q.store (.update eventsTable id row flash) := events_fits
  refine ⟨inv.store.step kept, inv.events, all_step inv.rows ?_, inv.entries⟩
  intro j stored own holds
  obtain ⟨-, rfl⟩ := row_key_inj events_fits events_fits own
  cases holds
  exact ⟨rfl, event, sent⟩

theorem delete (inv : Inv f q) (id : UInt32) (flash : Flash) :
    Inv f (q.apply (.delete eventsTable id flash)) :=
  have kept : SequenceKept q.store (.delete eventsTable id flash) := events_fits
  ⟨inv.store.step kept, inv.events, all_step inv.rows trivial, inv.entries⟩

/-- A new row has an id that no row and no entry has. -/
theorem insert (inv : Inv f q) {row : Row} {flash : Flash}
    (kept : SequenceKept q.store (.insert eventsTable row flash))
    (pending : row.record.status = .pending) :
    Inv (Function.update f (nextId eventsTable flash q.store.db) row.event)
      (q.apply (.insert eventsTable row flash)) := by
  have above : ∀ {id : UInt32}, (eventsTable.name, id) ∈ q.store.rows →
      id ≠ nextId eventsTable flash q.store.db := by
    intro id taken same
    have less := inv.store.nextId_above kept.1 kept.2.1 taken
    rw [same] at less
    exact UInt32.lt_irrefl _ less
  have events : ∀ taken ∈ (Db.step q.store (.insert eventsTable row flash)).rows,
      taken.1 = eventsTable.name := by
    intro other member
    rcases List.mem_cons.1 member with rfl | earlier
    · rfl
    · exact inv.events other earlier
  -- what is stored so far has other ids
  have old : q.store.db.All
      (RowsOk (Function.update f (nextId eventsTable flash q.store.db) row.event) q.acked) := by
    constructor
    · intro key blob found id stored own holds
      subst own
      exact (inv.rows.live found id stored rfl holds).elsewhere
        (above (inv.store.written events_fits found)) _
    · intro entry member id stored own holds
      have rowKey := inv.store.marked entry member
      rw [own] at rowKey
      exact (inv.rows.marked entry member id stored own holds).elsewhere
        (above (rowKey.written events_fits)) _
  have new : Writes (RowsOk (Function.update f (nextId eventsTable flash q.store.db) row.event) q.acked)
      q.store (.insert eventsTable row flash) := by
    constructor
    · intro id stored own holds
      cases holds
    · intro id stored own holds
      obtain ⟨-, rfl⟩ := row_key_inj events_fits events_fits own
      cases holds
      refine ⟨rfl, by simp [eventsTable], ?_⟩
      intro sent
      exact absurd (pending.symm.trans sent) (by decide)
  refine ⟨inv.store.step kept, events, all_step old new, ?_⟩
  intro entry member
  obtain ⟨id, own, taken, last⟩ := inv.entries entry member
  refine ⟨id, own, List.mem_cons_of_mem _ taken, ?_⟩
  rw [Function.update_of_ne (above taken)]
  exact last

end Inv

/-! ### Deliveries -/

variable {f : UInt32 → Nat} {q : Queue}

variable {msg_id : Int} {inflight : List (Option Inflight)}

/-- Taking an entry returns its row, and leaves no entry that was not there. -/
theorem inflight_take_some {row_id : Int} (took : (inflight_take msg_id inflight).2 = some row_id) :
    ∃ entry, some entry ∈ inflight ∧ entry.msg_id = msg_id ∧ entry.row_id = row_id := by
  unfold inflight_take at took
  cases found : inflight.findIdx? (fun slot => slot.any (·.msg_id = msg_id)) with
  | none => simp [found] at took
  | some i =>
    obtain ⟨small, matches_, -⟩ := List.findIdx?_eq_some_iff_getElem.1 found
    simp only [found, List.getElem?_eq_getElem small] at took
    cases slot : inflight[i] with
    | none => simp [slot] at took
    | some entry =>
      rw [slot] at took matches_
      refine ⟨entry, slot ▸ List.getElem_mem small, by simpa using matches_, by simpa using took⟩

theorem mem_inflight_take {entry : Inflight}
    (member : some entry ∈ (inflight_take msg_id inflight).1) : some entry ∈ inflight := by
  unfold inflight_take at member
  split at member
  · rcases List.mem_or_eq_of_mem_set member with old | new
    · exact old
    · cases new
  · exact member

theorem mem_inflight_add {new entry : Inflight}
    (member : some entry ∈ inflight_add new inflight) : some entry ∈ inflight ∨ entry = new := by
  unfold inflight_add at member
  split at member
  · exact (List.mem_or_eq_of_mem_set member).imp_right Option.some.inj
  · exact (List.mem_or_eq_of_mem_set member).imp_right Option.some.inj

/-- Marking a row whose event was acknowledged. -/
theorem Inv.mark_sent (inv : Inv f q) {id : UInt32} (acked : f id ∈ q.acked) (mark : Mark) :
    Inv f (mark_sent id.toNat mark q) := by
  unfold EventQueue.mark_sent
  rw [toId_toNat]
  cases found : hdb_get eventsTable id mark.readable q.store.db with
  | none => exact inv
  | some row =>
    simp only
    split
    · obtain ⟨blob, got, holds⟩ := Option.bind_eq_some_iff.1 found
      cases blob with
      | seq next => cases holds
      | row stored =>
        cases holds
        have ok := inv.rowOk (Kvdb.get_blob_some got)
        apply inv.update
        · exact ok.event_eq
        · intro sent
          exact ok.event_eq ▸ acked
    · exact inv

/-- Marking touches the store only. -/
theorem mark_sent_same (row_id : Int) (mark : Mark) (q : Queue) :
    ∃ store, mark_sent row_id mark q = { q with store } := by
  unfold mark_sent
  split
  · exact ⟨q.store, rfl⟩
  split
  · exact ⟨_, rfl⟩
  · exact ⟨q.store, rfl⟩

/-- A delivery touches the store, and takes entries out. -/
theorem deliver_same (delivery : Delivery) (mark : Mark) (q : Queue) :
    ∃ store inflight, deliver delivery mark q = { q with store, inflight } ∧
      ∀ entry, some entry ∈ inflight → some entry ∈ q.inflight := by
  unfold deliver
  cases delivery with
  | byRow id =>
    simp only
    split
    · obtain ⟨store, same⟩ := mark_sent_same id mark q
      exact ⟨store, q.inflight, same, fun _ member => member⟩
    · exact ⟨q.store, q.inflight, rfl, fun _ member => member⟩
  | byMsg msg_id =>
    simp only
    have fewer : ∀ entry, some entry ∈ (inflight_take msg_id q.inflight).1 →
        some entry ∈ q.inflight := fun _ => mem_inflight_take
    split
    · exact ⟨q.store, _, rfl, fewer⟩
    split
    · obtain ⟨store, same⟩ := mark_sent_same _ mark
        { q with inflight := (inflight_take msg_id q.inflight).1 }
      exact ⟨store, _, same, fewer⟩
    · exact ⟨q.store, _, rfl, fewer⟩

theorem Waiting.rest {delivery : Delivery} {rest : List Delivery}
    (waiting : Waiting q (delivery :: rest)) {after : Queue}
    (fewer : ∀ entry, some entry ∈ after.inflight → some entry ∈ q.inflight)
    (published : after.published = q.published) (acked : after.acked = q.acked) :
    Waiting after rest := by
  constructor
  · intro msg_id entry event later member own last
    rw [acked]
    exact waiting.byMsg (List.mem_cons_of_mem _ later) (fewer entry member) own (published ▸ last)
  · intro id later
    exact waiting.byRow id (List.mem_cons_of_mem _ later)

/-- A delivery marks the row of the event that was acknowledged. -/
theorem Inv.deliver (inv : Inv f q) {delivery : Delivery} {rest : List Delivery}
    (waiting : Waiting q (delivery :: rest)) (mark : Mark) : Inv f (deliver delivery mark q) := by
  cases delivery with
  | byRow id => exact absurd List.mem_cons_self (waiting.byRow id)
  | byMsg msg_id =>
    have without : Inv f { q with inflight := (inflight_take msg_id q.inflight).1 } :=
      inv.transfer rfl (List.Subset.refl _) fun entry member => inv.entries entry (mem_inflight_take member)
    unfold EventQueue.deliver
    simp only
    cases took : (inflight_take msg_id q.inflight).2 with
    | none => exact without
    | some row_id =>
      obtain ⟨entry, member, own, rowOf⟩ := inflight_take_some took
      obtain ⟨id, isRow, -, last⟩ := inv.entries entry member
      have acked : f id ∈ q.acked :=
        waiting.byMsg List.mem_cons_self member own (own ▸ last)
      have row : row_id = id.toNat := rowOf.symm.trans isRow
      subst row
      simp only
      split
      · exact without.mark_sent acked mark
      · exact without

theorem Inv.deliverAll (inv : Inv f q) {deliveries : List Delivery} (waiting : Waiting q deliveries)
    (marks : Nat → Mark) (i : Nat) : Inv f (deliverAll marks i deliveries q) := by
  induction deliveries generalizing i q with
  | nil => exact inv
  | cons delivery rest ih =>
    obtain ⟨store, inflight, same, fewer⟩ := deliver_same delivery (marks i) q
    have delivered := inv.deliver waiting (marks i)
    unfold EventQueue.deliverAll
    rw [same] at delivered ⊢
    exact ih delivered (waiting.rest fewer rfl rfl) (i + 1)

theorem deliverAll_same (marks : Nat → Mark) (i : Nat) (deliveries : List Delivery) (q : Queue) :
    ∃ store inflight, deliverAll marks i deliveries q = { q with store, inflight } ∧
      ∀ entry, some entry ∈ inflight → some entry ∈ q.inflight := by
  induction deliveries generalizing i q with
  | nil => exact ⟨q.store, q.inflight, rfl, fun _ member => member⟩
  | cons delivery rest ih =>
    obtain ⟨store, inflight, same, fewer⟩ := deliver_same delivery (marks i) q
    obtain ⟨laterStore, left, later, still⟩ := ih (i + 1) (deliver delivery (marks i) q)
    unfold deliverAll
    rw [later, same]
    rw [same] at still
    exact ⟨laterStore, left, rfl, fun entry member => fewer entry (still entry member)⟩

/-! ### The sweep -/

/-- The rows are pending ones that the store has given out. -/
def Snapshot (f : UInt32 → Nat) (q : Queue) (rows : List Row) : Prop :=
  ∀ row ∈ rows, ∃ id : UInt32, row.record.id = id.toNat ∧ row.event = f id ∧
    (eventsTable.name, id) ∈ q.store.rows ∧ row.record.status = .pending

/-- The messages of the visits from the `i`-th on get unused ids, each its own. -/
structure FreshIds (visits : Nat → Visit) (i : Nat) (q : Queue) : Prop where
  unused : ∀ j msg_id, i ≤ j → (visits j).publish = some msg_id → Unused q msg_id
  distinct : ∀ j k msg_id, (visits j).publish = some msg_id → (visits k).publish = some msg_id → j = k

/-- Publishing the event of a row, and keeping the entry for it. -/
theorem Inv.publish (inv : Inv f q) (unused : Unused q msg_id) {id : UInt32}
    (taken : (eventsTable.name, id) ∈ q.store.rows) {row_id : Int} (own : row_id = id.toNat) :
    Inv f { q.publish msg_id (some (f id)) with
      inflight := inflight_add { msg_id, row_id } q.inflight } := by
  refine inv.transfer rfl (List.Subset.refl _) ?_
  intro entry member
  rcases mem_inflight_add member with old | rfl
  · obtain ⟨j, isRow, given, last⟩ := inv.entries entry old
    refine ⟨j, isRow, given, ?_⟩
    have different : (entry.msg_id == msg_id) = false := by simpa using unused entry old
    simp only [Queue.publish, List.lookup_cons, different]
    exact last
  · exact ⟨id, own, taken, by simp [Queue.publish]⟩

/-- What a visit of a row changes. -/
theorem sweepRow_same (online : Bool) (row : Row) (visit : Visit) (q : Queue) (swept : Swept) :
    ∃ db inflight published, (sweepRow online row visit q swept).1 =
        { q with store := { q.store with db }, inflight, published } ∧
      ∀ entry, some entry ∈ inflight →
        some entry ∈ q.inflight ∨ visit.publish = some entry.msg_id := by
  unfold sweepRow
  dsimp only
  split
  · exact ⟨_, q.inflight, q.published, rfl, fun _ member => Or.inl member⟩
  split
  · split
    · exact ⟨q.store.db, q.inflight, q.published, rfl, fun _ member => Or.inl member⟩
    next msg_id published =>
    refine ⟨_, _, _, rfl, ?_⟩
    intro entry member
    rcases mem_inflight_add member with old | rfl
    · exact Or.inl old
    · exact Or.inr published
  · exact ⟨q.store.db, q.inflight, q.published, rfl, fun _ member => Or.inl member⟩

theorem Inv.sweepRow (inv : Inv f q) {row : Row} {id : UInt32} (own : row.record.id = id.toNat)
    (event : row.event = f id) (taken : (eventsTable.name, id) ∈ q.store.rows)
    (pending : row.record.status = .pending) (online : Bool) {visit : Visit}
    (unused : ∀ msg_id, visit.publish = some msg_id → Unused q msg_id) (swept : Swept) :
    Inv f (sweepRow online row visit q swept).1 := by
  unfold EventQueue.sweepRow
  dsimp only
  rw [own, toId_toNat]
  split
  · refine inv.update ?_ ?_ visit.flash
    · exact event
    · intro sent
      cases sent
  split
  · split
    · exact inv
    next msg_id published =>
    have sending := inv.publish (unused msg_id published) taken rfl
    rw [← event] at sending
    refine sending.update ?_ ?_ visit.flash
    · exact event
    · intro sent
      exact absurd (pending.symm.trans sent) (by decide)
  · exact inv

theorem Inv.sweepRows (inv : Inv f q) {rows : List Row} (snapshot : Snapshot f q rows) (online : Bool)
    {visits : Nat → Visit} {i : Nat} (fresh : FreshIds visits i q) (swept : Swept) :
    Inv f (sweepRows online visits i rows q swept).1 := by
  induction rows generalizing i q swept with
  | nil => exact inv
  | cons row rest ih =>
    obtain ⟨id, own, event, taken, pending⟩ := snapshot row List.mem_cons_self
    have visited := inv.sweepRow own event taken pending online
      (fun msg_id => fresh.unused i msg_id (Nat.le_refl i)) swept
    obtain ⟨db, inflight, published, same, entries⟩ := sweepRow_same online row (visits i) q swept
    unfold EventQueue.sweepRows
    simp only
    refine ih visited ?_ ⟨?_, fresh.distinct⟩ _
    · rw [same]
      exact fun later member => snapshot later (List.mem_cons_of_mem _ member)
    · intro j msg_id later publishes entry member
      rw [same] at member
      rcases entries entry member with old | now
      · exact fresh.unused j msg_id (by omega) publishes entry old
      · rintro rfl
        have sameVisit := fresh.distinct j i _ publishes now
        omega

theorem sweepRows_same (online : Bool) (visits : Nat → Visit) (i : Nat) (rows : List Row) (q : Queue)
    (swept : Swept) :
    ∃ db inflight published, (sweepRows online visits i rows q swept).1 =
      { q with store := { q.store with db }, inflight, published } := by
  induction rows generalizing i q swept with
  | nil => exact ⟨_, _, _, rfl⟩
  | cons row rest ih =>
    obtain ⟨db, inflight, published, same, -⟩ := sweepRow_same online row (visits i) q swept
    unfold sweepRows
    simp only
    obtain ⟨laterDb, left, sent, later⟩ := ih (i + 1) (sweepRow online row (visits i) q swept).1
      (sweepRow online row (visits i) q swept).2
    rw [later, same]
    exact ⟨laterDb, left, sent, rfl⟩

/-! ### Deletions -/

theorem Inv.clearRows (inv : Inv f q) (deletes : List (UInt32 × Flash)) :
    Inv f (clearRows deletes q) := by
  induction deletes generalizing q with
  | nil => exact inv
  | cons delete rest ih => exact ih (inv.delete _ _)

/-- The queue after some rows were deleted. -/
def Deleted (q after : Queue) : Prop :=
  ∃ deletes, after = clearRows deletes q

theorem Deleted.refl (q : Queue) : Deleted q q := ⟨[], rfl⟩

theorem Deleted.cons {after : Queue} (id : UInt32) (flash : Flash)
    (deleted : Deleted (q.apply (.delete eventsTable id flash)) after) : Deleted q after := by
  obtain ⟨deletes, rfl⟩ := deleted
  exact ⟨(id, flash) :: deletes, rfl⟩

theorem Deleted.trans {middle after : Queue} (first : Deleted q middle) (second : Deleted middle after) :
    Deleted q after := by
  obtain ⟨deletes, rfl⟩ := first
  induction deletes generalizing q with
  | nil => exact second
  | cons delete rest ih => exact (ih second).cons delete.1 delete.2

theorem cleanRow_deleted (cfg : Config) (row : Row) (flash : Flash) (q : Queue) (cleaned : Nat) :
    Deleted q (cleanRow cfg row flash q cleaned).1 := by
  unfold cleanRow
  split
  · exact (Deleted.refl _).cons _ _
  · exact Deleted.refl q

theorem cleanRows_deleted (cfg : Config) (deletes : Nat → Flash) (i : Nat) (rows : List Row) (q : Queue)
    (cleaned : Nat) : Deleted q (cleanRows cfg deletes i rows q cleaned).1 := by
  induction rows generalizing i q cleaned with
  | nil => exact Deleted.refl q
  | cons row rest ih => exact (cleanRow_deleted cfg row (deletes i) q cleaned).trans (ih _ _ _)

theorem cleanup_terminal_deleted (cfg : Config) (env : SweepEnv) (q : Queue) :
    Deleted q (cleanup_terminal cfg env q).1 :=
  (cleanRows_deleted cfg _ _ _ _ _).trans (cleanRows_deleted cfg _ _ _ _ _)

theorem evictLoop_deleted (cfg : Config) (rounds : List Evict) (q : Queue) :
    Deleted q (evictLoop cfg rounds q).1 := by
  induction rounds generalizing q with
  | nil => exact Deleted.refl q
  | cons round rest ih =>
    unfold evictLoop
    split
    · split
      · exact Deleted.refl q
      · exact (ih _).cons _ _
    · exact Deleted.refl q

/-! ### Runs -/

/-- What deletions leave of the queue: all but the rows, and the sequence with them. -/
theorem Deleted.same {after : Queue} (deleted : Deleted q after) :
    ∃ db : Kvdb Row, after = { q with store := { q.store with db } } ∧
      db.kvs (seq_key eventsTable) = q.store.db.kvs (seq_key eventsTable) := by
  obtain ⟨deletes, rfl⟩ := deleted
  induction deletes generalizing q with
  | nil => exact ⟨q.store.db, rfl, rfl⟩
  | cons delete rest ih =>
    obtain ⟨db, same, seq⟩ := @ih (q.apply (.delete eventsTable delete.1 delete.2))
    refine ⟨db, same, seq.trans ?_⟩
    simp only [Queue.apply, Db.step]
    rcases hdb_delete_cases eventsTable delete.1 delete.2 q.store.db with ⟨kept, -⟩ | ⟨-, gone, -⟩
    · rw [kept]
    · rw [gone]
      exact Kvdb.del_ne (row_key_ne_seq_key events_fits events_fits delete.1).symm

theorem Deleted.inv (inv : Inv f q) {after : Queue} (deleted : Deleted q after) : Inv f after := by
  obtain ⟨deletes, rfl⟩ := deleted
  exact inv.clearRows deletes

/-- The invariant of a run. -/
def Good (q : Queue) : Prop := ∃ f, Inv f q ∧ Waiting q q.ring

theorem good_start : Good Queue.start := by
  refine ⟨fun _ => 0, ⟨inv_start, ?_, ?_, ?_⟩, ?_, ?_⟩
  · intro taken member
    cases member
  · constructor
    · intro key blob found
      cases found
    · intro entry member
      cases member
  · intro entry member
    simp [Queue.start] at member
  · intro msg_id entry event member
    cases member
  · intro id member
    cases member

/-- Only the waiting deliveries and what they are for matter. -/
theorem Waiting.congr {deliveries : List Delivery} (waiting : Waiting q deliveries) {after : Queue}
    (inflight : after.inflight = q.inflight) (published : after.published = q.published)
    (acked : after.acked = q.acked) : Waiting after deliveries := by
  constructor
  · intro msg_id entry event member there own last
    rw [acked]
    exact waiting.byMsg member (inflight ▸ there) own (published ▸ last)
  · exact waiting.byRow

theorem good_enqueue {event : Event} {env : EnqueueEnv} (good : Good q)
    (kept : SequenceKept q.store (.insert eventsTable (newRow cfg event q) env.flash)) :
    Good (helix_event_queue_enqueue cfg event env q) := by
  obtain ⟨f, inv, waiting⟩ := good
  unfold helix_event_queue_enqueue
  split
  · exact ⟨f, inv, waiting⟩
  have counted : Inv f { q with counter := q.counter + 1 } :=
    inv.transfer rfl (List.Subset.refl _) inv.entries
  have evicted := (evictLoop_deleted cfg env.rounds { q with counter := q.counter + 1 }).inv counted
  obtain ⟨db, same, seq⟩ :=
    (evictLoop_deleted cfg env.rounds { q with counter := q.counter + 1 }).same
  dsimp only
  rw [same] at evicted ⊢
  split
  · have stillKept : SequenceKept { q.store with db }
        (.insert eventsTable (newRow cfg event q) env.flash) := by
      obtain ⟨fits, read, written, unexhausted⟩ := kept
      refine ⟨fits, ?_, written, ?_⟩
      · rw [seq]
        exact read
      · rw [seq]
        exact unexhausted
    exact ⟨_, evicted.insert stillKept rfl, waiting.congr rfl rfl rfl⟩
  · exact ⟨f, evicted, waiting.congr rfl rfl rfl⟩

theorem good_sweep {env : SweepEnv} (good : Good q)
    (unused : ∀ i msg_id, (env.visits i).publish = some msg_id → Unused q msg_id)
    (distinct : ∀ i j msg_id, (env.visits i).publish = some msg_id →
      (env.visits j).publish = some msg_id → i = j) :
    Good (helix_event_queue_sweep cfg env q) := by
  obtain ⟨f, inv, waiting⟩ := good
  have emptied : Inv f { q with ring := [] } := inv.transfer rfl (List.Subset.refl _) inv.entries
  have drained := emptied.deliverAll (waiting.congr rfl rfl rfl) env.marks 0
  obtain ⟨store, inflight, same, fewer⟩ :=
    deliverAll_same env.marks 0 q.ring { q with ring := [] }
  have fresh : FreshIds env.visits 0 (drain_deliveries env.marks q) := by
    refine ⟨?_, distinct⟩
    intro j msg_id _ publishes entry member
    unfold drain_deliveries at member
    rw [same] at member
    exact unused j msg_id publishes entry (fewer entry member)
  have snapshot : Snapshot f (drain_deliveries env.marks q) (batch env (drain_deliveries env.marks q)) := by
    intro row member
    obtain ⟨id, found, pending⟩ := drained.listed member
    have ok := drained.rowOk found
    exact ⟨id, ok.id_eq, ok.event_eq, drained.store.written events_fits found, pending⟩
  have swept := drained.sweepRows snapshot env.online fresh {}
  obtain ⟨db, left, published, sweptSame⟩ := sweepRows_same env.online env.visits 0
    (batch env (drain_deliveries env.marks q)) (drain_deliveries env.marks q) {}
  have deleted := cleanup_terminal_deleted cfg env (sweepPending env q).1
  refine ⟨f, deleted.inv swept, ?_⟩
  have ring : (helix_event_queue_sweep cfg env q).ring = [] := by
    obtain ⟨cleaned, cleanedSame, -⟩ := deleted.same
    unfold helix_event_queue_sweep
    rw [cleanedSame]
    unfold sweepPending
    dsimp only
    rw [sweptSame]
    unfold drain_deliveries
    rw [same]
  rw [ring]
  constructor
  · intro msg_id entry event member
    cases member
  · intro id member
    cases member

theorem good_step {op : Op} (good : Good q) (kept : MessageIdsKept cfg q op) : Good (step cfg q op) := by
  cases op with
  | enqueue event env => exact good_enqueue good kept
  | sweep env => exact good_sweep good kept.1 kept.2
  | publishOther msg_id =>
    obtain ⟨f, inv, waiting⟩ := good
    have elsewhere : ∀ entry, some entry ∈ q.inflight → ∀ event,
        (q.publish msg_id event).published.lookup entry.msg_id = q.published.lookup entry.msg_id := by
      intro entry member event
      have different : (entry.msg_id == msg_id) = false := by simpa using kept entry member
      simp only [Queue.publish, List.lookup_cons, different]
    refine ⟨f, inv.transfer rfl (List.Subset.refl _) ?_, ?_, waiting.byRow⟩
    · intro entry member
      obtain ⟨id, own, taken, last⟩ := inv.entries entry member
      exact ⟨id, own, taken, (elsewhere entry member none).trans last⟩
    · intro other entry event waits member own last
      subst own
      exact waiting.byMsg waits member rfl ((elsewhere entry member none).symm.trans last)
  | ack i =>
    obtain ⟨f, inv, waiting⟩ := good
    unfold step
    dsimp only
    cases found : q.published[i]? with
    | none => exact ⟨f, inv, waiting⟩
    | some message =>
      obtain ⟨msg_id, event⟩ := message
      have lastOne := kept msg_id event found
      have acked : Inv f { q with acked := event.toList ++ q.acked } :=
        inv.transfer rfl (List.subset_append_right _ _) inv.entries
      have more : Waiting { q with acked := event.toList ++ q.acked } q.ring := by
        refine ⟨?_, waiting.byRow⟩
        intro other entry number waits member own last
        exact List.mem_append_right _ (waiting.byMsg waits member own last)
      simp only [ring_push]
      split
      · refine ⟨f, acked.transfer rfl (List.Subset.refl _) acked.entries, ?_, ?_⟩
        · intro other entry number waits member own last
          rcases List.mem_append.1 waits with before | now
          · exact more.byMsg before member own last
          · cases List.mem_singleton.1 now
            have same : event = some number := Option.some.inj (lastOne.symm.trans last)
            rw [same]
            exact List.mem_append_left _ (List.mem_singleton.2 rfl)
        · intro id waits
          rcases List.mem_append.1 waits with before | now
          · exact waiting.byRow id before
          · cases List.mem_singleton.1 now
      · exact ⟨f, acked, more⟩
  | simulate_delivery id => exact kept.elim
  | clear deletes =>
    obtain ⟨f, inv, waiting⟩ := good
    obtain ⟨db, same, -⟩ := Deleted.same (q := q) ⟨deletes, rfl⟩
    refine ⟨f, inv.clearRows deletes, ?_⟩
    have cleared : step cfg q (.clear deletes) = { q with store := { q.store with db } } := same
    rw [cleared]
    exact waiting.congr rfl rfl rfl
  | tick ms =>
    obtain ⟨f, inv, waiting⟩ := good
    exact ⟨f, inv.transfer rfl (List.Subset.refl _) inv.entries, waiting.congr rfl rfl rfl⟩
  | reboot chosen =>
    obtain ⟨f, inv, waiting⟩ := good
    refine ⟨f, ⟨inv.store.recover chosen, inv.events, inv.rows.recover chosen, ?_⟩, ?_, ?_⟩
    · intro entry member
      simp [step] at member
    · intro msg_id entry event waits
      cases waits
    · intro id waits
      cases waits

/-- In every run in which no message gets the id of an entry that is still in the
in-flight table, and acknowledgements are for the last message with their id, an
event is marked as sent only if the broker has acknowledged a publish of it. -/
theorem sent_acked (cfg : Config) {ops : List Op}
    (kept : Along (step cfg) (MessageIdsKept cfg) Queue.start ops) :
    SentAcked (run (step cfg) Queue.start ops) := by
  obtain ⟨f, inv, -⟩ :=
    kept.invariant Good (fun _ _ good kept => good_step good kept) good_start
  intro id row found sent
  exact (inv.rowOk found).sent sent

/-! ### An id that is given out again -/

def doorOpened : Event :=
  { msg_id := "door-1", service := "door", event_type := "opened", envelope := "\x7b\x7d" }

/-- A pass that finds the first row. -/
def firstRow : Scan := { order := [row_key eventsTable 1] }

/-- A sweep that publishes the first row, if it is due, with this message id. -/
def sweepWith (msg_id : Option Int) : Op :=
  .sweep
    { pending := firstRow
      sent := firstRow
      expired := firstRow
      visits := fun i => if i = 0 then { publish := msg_id } else {} }

/-- The first event is stored and published with the id 1. -/
def firstPublished : List Op :=
  [.enqueue doorOpened { rounds := [{ counted := firstRow, listed := fun _ => firstRow }] },
    sweepWith (some 1)]

theorem sent_acked_first :
    SentAcked (run (step {}) Queue.start (firstPublished ++ [.ack 0, sweepWith none])) := by
  apply sent_acked
  refine ⟨⟨events_fits, fun _ => rfl, rfl, by decide⟩, ⟨?_, ?_⟩, ?_, ⟨?_, ?_⟩, trivial⟩
  · intro i msg_id published
    by_cases first : i = 0
    · subst first
      cases published
      decide
    · simp [first] at published
  · intro i j msg_id one two
    by_cases first : i = 0
    · by_cases second : j = 0
      · exact first.trans second.symm
      · simp [second] at two
    · simp [first] at one
  · intro msg_id event found
    have only : (run (step {}) Queue.start firstPublished).published = [(1, some 0)] := by
      decide
    change (run (step {}) Queue.start firstPublished).published[0]? = some (msg_id, event) at found
    change (run (step {}) Queue.start firstPublished).published.lookup msg_id = some event
    rw [only] at found ⊢
    cases found
    rfl
  · intro i msg_id published
    by_cases first : i = 0 <;> simp [first] at published
  · intro i j msg_id one
    by_cases first : i = 0 <;> simp [first] at one

/-- The event is not acknowledged; another message gets the id 1 and is: the event is
marked as sent. -/
theorem reused_id_marks_sent :
    let q := run (step {}) Queue.start (firstPublished ++ [.publishOther 1, .ack 0, sweepWith none])
    (hdb_get eventsTable 1 true q.store.db).map (·.record.status) = some .sent ∧ q.acked = [] ∧
      ¬ SentAcked q := by
  intro q
  have marked : (hdb_get eventsTable 1 true q.store.db).map (·.record.status) = some .sent := by
    decide
  have unacknowledged : q.acked = [] := by decide
  refine ⟨marked, unacknowledged, ?_⟩
  intro sentAcked
  obtain ⟨row, got, status⟩ := Option.map_eq_some_iff.1 marked
  obtain ⟨blob, found, holds⟩ := Option.bind_eq_some_iff.1 got
  cases blob with
  | seq next => cases holds
  | row stored =>
    cases holds
    have acked := sentAcked 1 _ (Kvdb.get_blob_some found) status
    rw [unacknowledged] at acked
    cases acked

end HelixKit.Esp32.EventQueue
