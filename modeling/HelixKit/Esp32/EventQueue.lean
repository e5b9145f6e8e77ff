/-
Purpose: The device event queue: events kept in the embedded store, the sweep that
  publishes, expires and cleans them up, and the acknowledgements of the broker.
Trusted boundary: none
-/
import HelixKit.Esp32.Insertion
import Mathlib.Algebra.GroupWithZero.Nat
import Mathlib.Algebra.Ring.Int.Defs

namespace HelixKit.Esp32.EventQueue

open HelixKit.Esp32.Db

/-! ### Events -/

/-- `helix_event_status_t`. -/
inductive Status where
  | pending
  | sent
  | expired
deriving Repr, DecidableEq

/-- `helix_event_record_t`. -/
structure Record where
  id : Int := 0
  msg_id : String
  service : String
  event_type : String
  envelope : String
  created_ms : Int
  expiry_ms : Int
  status : Status := .pending
  attempts : Int := 0
  last_attempt_ms : Int := 0
  sent_ms : Int := 0
  created_ts : Int
deriving Repr, DecidableEq

/-- A stored record.  What is added to it nothing reads: which enqueue it comes from,
in which boot that was, the powered-on time then, and the boot and the powered-on
time of its last attempt. -/
structure Row where
  record : Record
  event : Nat
  boot : Nat
  born : Int
  attempted : Option (Nat × Int) := none
deriving Repr, DecidableEq

/-- `EVENTS_TABLE`.  A row has far more than four bytes; its first four are the low
half of the id. -/
def eventsTable : Table Row :=
  { name := ['e', 'v', 'e', 'n', 't', 's']
    stamp_id := fun id row => { row with record := { row.record with id := id.toNat } }
    asSeq := fun row => some (UInt32.ofNat (row.record.id % 2 ^ 32).toNat) }

/-- The build's configuration. -/
structure Config where
  ttl_sec : Nat := 86400
  retention_sec : Int := 3600
  max_events : Nat := 128

def sweepBatch : Nat := 16
def inflightMax : Nat := 16
def deliverRing : Nat := 32
def backoffBaseMs : Int := 5000
def backoffCapMs : Int := 300000

/-! ### The state -/

/-- A delivery, by the message id that was acknowledged or by the row. -/
inductive Delivery where
  | byMsg (msg_id : Int)
  | byRow (id : Int)
deriving Repr, DecidableEq

/-- A publish that may be acknowledged. -/
structure Inflight where
  msg_id : Int
  row_id : Int
deriving Repr, DecidableEq

/-- The store, and what the queue keeps in memory.  Kept for what is said about runs
are the number of events so far, the boot and the powered-on time before it, every
message published since the boot, the last one first, with its event if it has one,
and the events of which the broker acknowledged a publish. -/
structure Queue where
  store : Store Row := Store.start
  inflight : List (Option Inflight) := List.replicate inflightMax none
  ring : List Delivery := []
  clock : Int := 0
  counter : Nat := 0
  boot : Nat := 0
  earlier : Int := 0
  published : List (Int × Option Nat) := []
  acked : List Nat := []

/-- The powered-on time. -/
def Queue.poweredOn (q : Queue) : Int := q.earlier + q.clock

def Queue.start : Queue := {}

/-- The store after an operation on it. -/
def Queue.apply (q : Queue) (op : Db.Op Row) : Queue := { q with store := Db.step q.store op }

/-- How one pass over the entries comes out: in which order the iterator finds them,
and which can be read. -/
structure Scan where
  order : List Key
  readable : Key → Bool := fun _ => true

def list (status : Status) (limit max_rows : Nat) (scan : Scan) (q : Queue) : List Row :=
  hdb_select eventsTable (·.record.status = status) (fun a b => a.record.id ≤ b.record.id)
    limit 0 max_rows scan.order scan.readable q.store.db

def count (accept : Row → Bool) (scan : Scan) (q : Queue) : Nat :=
  hdb_count eventsTable accept scan.order scan.readable q.store.db

/-- The conversion to `uint32_t`. -/
def toId (id : Int) : UInt32 := UInt32.ofNat (id % 2 ^ 32).toNat

/-! ### Enqueueing -/

/-- What `helix_event_queue_enqueue` makes an event of. -/
structure Event where
  msg_id : String
  service : String
  event_type : String
  envelope : String
  ttl_sec : Nat := 0
  created_ts : Int := 0
deriving Repr, DecidableEq

/-- One round of the eviction. -/
structure Evict where
  counted : Scan
  listed : Status → Scan
  flash : Flash := {}

/-- The first terminal row that a pass finds, or else the first pending one. -/
def candidate (listed : Status → Scan) (q : Queue) : Option Row :=
  ([.sent, .expired, .pending].flatMap fun status => list status 1 1 (listed status) q).head?

/-- Evicts while the queue is full and a row is found; the flag says that the loop
has ended. -/
def evictLoop (cfg : Config) : List Evict → Queue → Queue × Bool
  | [], q => (q, false)
  | round :: rest, q =>
    if count (fun _ => true) round.counted q ≥ cfg.max_events then
      match candidate round.listed q with
      | none => (q, true)
      | some row =>
        evictLoop cfg rest (q.apply (.delete eventsTable (toId row.record.id) round.flash))
    else
      (q, true)

/-- How the calls of one enqueue come out. -/
structure EnqueueEnv where
  rounds : List Evict
  flash : Flash := {}

def newRow (cfg : Config) (event : Event) (q : Queue) : Row :=
  let ttl := if event.ttl_sec > 0 then event.ttl_sec else cfg.ttl_sec
  { record :=
      { msg_id := event.msg_id
        service := event.service
        event_type := event.event_type
        envelope := event.envelope
        created_ms := q.clock
        expiry_ms := if ttl > 0 then q.clock + ttl * 1000 else 0
        created_ts := event.created_ts }
    event := q.counter
    boot := q.boot
    born := q.poweredOn }

/-- An event that has no service or type, or does not fit, is refused. -/
def helix_event_queue_enqueue (cfg : Config) (event : Event) (env : EnqueueEnv) (q : Queue) : Queue :=
  if event.service = "" ∨ event.event_type = "" ∨ event.envelope.utf8ByteSize ≥ 256 then q
  else
    let row := newRow cfg event q
    let (evicted, ended) := evictLoop cfg env.rounds { q with counter := q.counter + 1 }
    if ended then evicted.apply (.insert eventsTable row env.flash) else evicted

/-! ### Deliveries -/

/-- Takes the first free slot; with none free, the entry of the first one goes. -/
def inflight_add (entry : Inflight) (inflight : List (Option Inflight)) : List (Option Inflight) :=
  match inflight.findIdx? (·.isNone) with
  | some i => inflight.set i (some entry)
  | none => inflight.set 0 (some entry)

/-- The row of the first entry with the message id, and the table without it. -/
def inflight_take (msg_id : Int) (inflight : List (Option Inflight)) :
    List (Option Inflight) × Option Int :=
  match inflight.findIdx? (fun slot => slot.any (·.msg_id = msg_id)) with
  | some i => (inflight.set i none, (inflight[i]?.join).map (·.row_id))
  | none => (inflight, none)

/-- A delivery is dropped when the ring is full. -/
def ring_push (delivery : Delivery) (q : Queue) : Queue :=
  if q.ring.length + 1 < deliverRing then { q with ring := q.ring ++ [delivery] } else q

/-- How the read and the update of one row come out. -/
structure Mark where
  readable : Bool := true
  flash : Flash := {}

def mark_sent (row_id : Int) (mark : Mark) (q : Queue) : Queue :=
  match hdb_get eventsTable (toId row_id) mark.readable q.store.db with
  | none => q
  | some row =>
    if row.record.status = .pending then
      q.apply (.update eventsTable (toId row_id)
        { row with record := { row.record with status := .sent, sent_ms := q.clock } } mark.flash)
    else
      q

/-- One delivery: the row is looked up first, a negative one is none. -/
def deliver (delivery : Delivery) (mark : Mark) (q : Queue) : Queue :=
  match delivery with
  | .byRow id => if id ≥ 0 then mark_sent id mark q else q
  | .byMsg msg_id =>
    let (inflight, row_id) := inflight_take msg_id q.inflight
    let q := { q with inflight }
    match row_id with
    | none => q
    | some row_id => if row_id ≥ 0 then mark_sent row_id mark q else q

def deliverAll (marks : Nat → Mark) : Nat → List Delivery → Queue → Queue
  | _, [], q => q
  | i, delivery :: rest, q => deliverAll marks (i + 1) rest (deliver delivery (marks i) q)

def drain_deliveries (marks : Nat → Mark) (q : Queue) : Queue :=
  deliverAll marks 0 q.ring { q with ring := [] }

/-! ### The sweep -/

def backoff_ms (attempts : Int) : Int :=
  let shift := if attempts > 6 then 6 else attempts.toNat
  let b := backoffBaseMs * 2 ^ shift
  if b > backoffCapMs then backoffCapMs else b

/-- How the publish and the update of one row come out: `none` is a publish that
fails. -/
structure Visit where
  publish : Option Int := none
  flash : Flash := {}

/-- The rows that the sweep tried to publish, and what it counted. -/
structure Swept where
  tried : List Row := []
  retried : Nat := 0
  expired : Nat := 0
deriving Repr, DecidableEq

/-- The time has come to publish the row again. -/
def due (t : Int) (r : Record) : Bool :=
  r.last_attempt_ms = 0 ∨ t - r.last_attempt_ms ≥ backoff_ms r.attempts

def pastTtl (t : Int) (r : Record) : Bool := r.expiry_ms > 0 ∧ t ≥ r.expiry_ms

/-- The message is published, and will be acknowledged as one of this event. -/
def Queue.publish (q : Queue) (msg_id : Int) (event : Option Nat) : Queue :=
  { q with published := (msg_id, event) :: q.published }

def sweepRow (online : Bool) (row : Row) (visit : Visit) (q : Queue) (swept : Swept) : Queue × Swept :=
  let r := row.record
  if pastTtl q.clock r then
    (q.apply (.update eventsTable (toId r.id) { row with record := { r with status := .expired } }
        visit.flash),
      { swept with expired := swept.expired + 1 })
  else if online ∧ due q.clock r then
    match visit.publish with
    | none => (q, { swept with tried := swept.tried ++ [row] })
    | some msg_id =>
      let q := q.publish msg_id (some row.event)
      let q := { q with inflight := inflight_add { msg_id, row_id := r.id } q.inflight }
      (q.apply (.update eventsTable (toId r.id)
          { row with
            record := { r with attempts := r.attempts + 1, last_attempt_ms := q.clock }
            attempted := some (q.boot, q.poweredOn) }
          visit.flash),
        { swept with tried := swept.tried ++ [row], retried := swept.retried + 1 })
  else
    (q, swept)

def sweepRows (online : Bool) (visits : Nat → Visit) : Nat → List Row → Queue → Swept → Queue × Swept
  | _, [], q, swept => (q, swept)
  | i, row :: rest, q, swept =>
    let (q, swept) := sweepRow online row (visits i) q swept
    sweepRows online visits (i + 1) rest q swept

/-- When the row was done with. -/
def terminal_ms (r : Record) : Int := if r.status = .sent then r.sent_ms else r.expiry_ms

/-- A terminal row is deleted when its retention is over. -/
def cleanRow (cfg : Config) (row : Row) (flash : Flash) (q : Queue) (cleaned : Nat) : Queue × Nat :=
  if terminal_ms row.record > 0 ∧ q.clock - terminal_ms row.record ≥ cfg.retention_sec * 1000 then
    (q.apply (.delete eventsTable (toId row.record.id) flash), cleaned + 1)
  else
    (q, cleaned)

def cleanRows (cfg : Config) (deletes : Nat → Flash) : Nat → List Row → Queue → Nat → Queue × Nat
  | _, [], q, cleaned => (q, cleaned)
  | i, row :: rest, q, cleaned =>
    let (q, cleaned) := cleanRow cfg row (deletes i) q cleaned
    cleanRows cfg deletes (i + 1) rest q cleaned

/-- How the calls of one sweep come out. -/
structure SweepEnv where
  online : Bool := true
  marks : Nat → Mark := fun _ => {}
  pending : Scan
  visits : Nat → Visit := fun _ => {}
  sent : Scan
  sentDeletes : Nat → Flash := fun _ => {}
  expired : Scan
  expiredDeletes : Nat → Flash := fun _ => {}

def cleanup_terminal (cfg : Config) (env : SweepEnv) (q : Queue) : Queue × Nat :=
  let (q, cleaned) := cleanRows cfg env.sentDeletes 0 (list .sent sweepBatch sweepBatch env.sent q) q 0
  cleanRows cfg env.expiredDeletes 0 (list .expired sweepBatch sweepBatch env.expired q) q cleaned

/-- The rows that the sweep looks at. -/
def batch (env : SweepEnv) (q : Queue) : List Row :=
  list .pending sweepBatch sweepBatch env.pending q

/-- The sweep up to the clean-up. -/
def sweepPending (env : SweepEnv) (q : Queue) : Queue × Swept :=
  let q := drain_deliveries env.marks q
  sweepRows env.online env.visits 0 (batch env q) q {}

def helix_event_queue_sweep (cfg : Config) (env : SweepEnv) (q : Queue) : Queue :=
  (cleanup_terminal cfg env (sweepPending env q).1).1

/-! ### Runs -/

inductive Op where
  | enqueue (event : Event) (env : EnqueueEnv)
  | sweep (env : SweepEnv)
  /-- The device publishes something else. -/
  | publishOther (msg_id : Int)
  /-- The broker acknowledges the `i`-th last message. -/
  | ack (i : Nat)
  | simulate_delivery (id : Int)
  /-- Rows are deleted one after the other. -/
  | clear (deletes : List (UInt32 × Flash))
  | tick (ms : Nat)
  | reboot (chosen : List Nat)

def clearRows : List (UInt32 × Flash) → Queue → Queue
  | [], q => q
  | (id, flash) :: rest, q => clearRows rest (q.apply (.delete eventsTable id flash))

/-- An acknowledgement that arrives during a sweep is as one that arrives after it:
the sweep has read the ring by then. -/
def step (cfg : Config) (q : Queue) : Op → Queue
  | .enqueue event env => helix_event_queue_enqueue cfg event env q
  | .sweep env => helix_event_queue_sweep cfg env q
  | .publishOther msg_id => q.publish msg_id none
  | .ack i =>
    match q.published[i]? with
    | none => q
    | some (msg_id, event) =>
      ring_push (.byMsg msg_id) { q with acked := event.toList ++ q.acked }
  | .simulate_delivery id => ring_push (.byRow id) q
  | .clear deletes => clearRows deletes q
  | .tick ms => { q with clock := q.clock + ms }
  | .reboot chosen =>
    { store := Db.step q.store (.reboot chosen)
      counter := q.counter
      boot := q.boot + 1
      earlier := q.poweredOn
      acked := q.acked }

end HelixKit.Esp32.EventQueue
