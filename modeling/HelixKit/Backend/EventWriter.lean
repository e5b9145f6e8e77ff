/-
Purpose: The consumers that write the queued events of the devices from Kafka to Postgres, a chunk
  of a batch at a time, and commit the offsets of what is written.
Trusted boundary: `JSON.parse` and `Date.parse` are parameters; Postgres takes every row whose
  texts have no U+0000, and the drawn ids of rows are new
Main exports: events_stored_once
-/
import HelixKit.Backend.JsText
import HelixKit.Backend.JsValue
import HelixKit.Lib.Runs
import HelixKit.Lib.Trimming
import Mathlib.Data.List.Nodup
import Mathlib.Logic.Function.Basic

namespace HelixKit.Backend.EventWriter

open HelixKit.Runs

/-! ## Messages and rows -/

inductive KafkaHeaderValue where
  | undefined
  | single (value : JsString)
  | several (values : List JsString)
deriving Repr, DecidableEq

/-- `offset` is the place in the log of the partition. -/
structure KafkaMessage where
  offset : Nat := 0
  key : Option JsString := none
  receivedAt : KafkaHeaderValue := .undefined
  value : Option JsString := none
deriving Repr, DecidableEq

/-- Dates are their milliseconds, and an invalid date is none. -/
structure Row where
  deviceId : JsString
  eventPayload : JsValue
  eventTimestamp : Option Int
  eventType : JsString
  messageId : JsString
  receivedAt : Option Int
deriving Repr

/-- What a writer is made with, and the two parsers that it calls. -/
structure Writer where
  batchSize : Nat
  parseJson : JsString → Option JsValue
  parseDate : JsString → Option Int

def isBlank (unit : UInt16) : Bool := JsText.isWhiteSpace (Char.ofNat unit.toNat)

def trim (text : JsString) : JsString := Trimming.trimmed isBlank text

def normalizeOptionalString : JsValue → Option JsString
  | .string value => if trim value = [] then none else some (trim value)
  | _ => none

/-- A text, or undefined. -/
def optional : Option JsString → JsValue
  | none => .undefined
  | some value => .string value

def headerValue : KafkaHeaderValue → Option JsString
  | .undefined => none
  | .single value => normalizeOptionalString (.string value)
  | .several values => normalizeOptionalString (optional values.head?)

def isDeviceEventEnvelope (value : JsValue) : Bool :=
  match value with
  | .object _ => (normalizeOptionalString (value.get (js "type"))).isSome
  | _ => false

def parseDeviceEventEnvelope (writer : Writer) (payload : JsString) : Option JsValue :=
  (writer.parseJson payload).filter isDeviceEventEnvelope

def parseEventTimestamp (writer : Writer) (value : Option JsString) : Option Int :=
  value.bind writer.parseDate

/-- `payload ?? {}` -/
def payloadOf (envelope : JsValue) : JsValue :=
  match envelope.get (js "payload") with
  | .undefined | .null => .object []
  | payload => payload

/-- The type of an envelope, which is a string. -/
def typeOf (envelope : JsValue) : JsString :=
  match envelope.get (js "type") with
  | .string value => value
  | _ => []

def toRow (writer : Writer) (message : KafkaMessage) : Option Row := do
  let deviceId ← normalizeOptionalString (optional message.key)
  let receivedAt ← headerValue message.receivedAt
  let envelope ← parseDeviceEventEnvelope writer (message.value.getD [])
  let messageId ← normalizeOptionalString (envelope.get (js "msgId"))
  some {
    deviceId
    eventPayload := payloadOf envelope
    eventTimestamp :=
      parseEventTimestamp writer (normalizeOptionalString (envelope.get (js "timestamp")))
    eventType := typeOf envelope
    messageId
    receivedAt := writer.parseDate receivedAt }

/-! ## The table -/

def isHigh (unit : UInt16) : Bool := 0xD800 ≤ unit && unit ≤ 0xDBFF
def isLow (unit : UInt16) : Bool := 0xDC00 ≤ unit && unit ≤ 0xDFFF

/-- A text as it is in UTF-8, which has U+FFFD for a lone surrogate. -/
def toWellFormed : JsString → JsString
  | [] => []
  | [unit] => if isHigh unit || isLow unit then [0xFFFD] else [unit]
  | unit :: next :: rest =>
    if isHigh unit && isLow next then unit :: next :: toWellFormed rest
    else if isHigh unit || isLow unit then 0xFFFD :: toWellFormed (next :: rest)
    else unit :: toWellFormed (next :: rest)

/-- What is unique in the table. -/
def Row.eventId (row : Row) : JsString × JsString :=
  (toWellFormed row.deviceId, toWellFormed row.messageId)

mutual

/-- Whether U+0000 is in a string or a key of the value. -/
def hasNul : JsValue → Bool
  | .string value => value.contains 0
  | .array items => itemsHaveNul items
  | .object fields => fieldsHaveNul fields
  | .undefined | .null | .boolean _ | .number _ => false

def itemsHaveNul : List JsValue → Bool
  | [] => false
  | item :: rest => hasNul item || itemsHaveNul rest

def fieldsHaveNul : List (JsString × JsValue) → Bool
  | [] => false
  | (key, value) :: rest => key.contains 0 || hasNul value || fieldsHaveNul rest

end

/-- The driver throws on an invalid date, and Postgres on U+0000. -/
def Row.storable (row : Row) : Bool :=
  !row.deviceId.contains 0 && !row.eventType.contains 0 && !row.messageId.contains 0 &&
    !hasNul row.eventPayload && row.receivedAt.isSome

/-- An insert that does nothing on a conflict. -/
def insertRow (table : List Row) (row : Row) : List Row :=
  if row.eventId ∈ table.map Row.eventId then table else table ++ [row]

/-- How a call to a server ends. What it does may be done though the call throws. -/
inductive Answer where
  | ok
  | lost
  | failed
deriving Repr, DecidableEq

/-- The table afterwards, and whether the call returns. -/
def writeChunk (table : List Row) (rows : List Row) (answer : Answer) : List Row × Bool :=
  if rows.isEmpty then (table, true)
  else if rows.all Row.storable then
    match answer with
    | .ok => (rows.foldl insertRow table, true)
    | .lost => (rows.foldl insertRow table, false)
    | .failed => (table, false)
  else (table, false)

/-! ## Consumers -/

/-- Where `eachBatch` stands: before a chunk, before its commit or before its heartbeat. -/
inductive Phase where
  | loop
  | commit
  | heartbeat
deriving Repr, DecidableEq

/-- The work of one consumer on a partition. `position` is the offset that it fetches from, and
`batch` what is left of the batch, with the chunk in progress. -/
structure Worker where
  partition : Nat := 0
  position : Nat := 0
  batch : List KafkaMessage := []
  phase : Phase := .loop
deriving Repr, DecidableEq

structure State where
  log : Nat → List KafkaMessage := fun _ => []
  committed : Nat → Nat := fun _ => 0
  table : List Row := []
  workers : Nat → Worker := fun _ => {}

def nextOffset (log : List KafkaMessage) : Nat :=
  match log.getLast? with
  | none => 0
  | some last => last.offset + 1

inductive Op where
  /-- A message is queued. Offsets may be skipped. -/
  | produce (partition gap : Nat) (message : KafkaMessage)
  /-- A consumer starts, or starts again, at the committed offset. -/
  | assign (worker partition : Nat)
  | fetch (worker count : Nat)
  /-- `eachBatch` returns, for the consumer is not running or stale. -/
  | stop (worker : Nat)
  | write (worker : Nat) (answer : Answer)
  | commit (worker : Nat) (answer : Answer)
  | heartbeat (worker : Nat) (ok : Bool)
deriving Repr, DecidableEq

/-- `eachBatch` throws or returns. -/
def Worker.leave (w : Worker) : Worker := { w with batch := [], phase := .loop }

def Worker.chunk (batchSize : Nat) (w : Worker) : List KafkaMessage := w.batch.take batchSize

def State.setWorker (s : State) (i : Nat) (w : Worker) : State :=
  { s with workers := Function.update s.workers i w }

/-- What there is to fetch from a position. -/
def pending (log : List KafkaMessage) (position : Nat) : List KafkaMessage :=
  log.filter fun message => position ≤ message.offset

/-- `resolveOffset` of each message of a chunk that is written. -/
def Worker.written (batchSize : Nat) (w : Worker) : Worker :=
  match (w.chunk batchSize).getLast? with
  | none => { w with phase := .heartbeat }
  | some last => { w with phase := .commit, position := last.offset + 1 }

/-- A step that cannot be taken changes nothing. -/
def step (writer : Writer) (s : State) : Op → State
  | .produce partition gap message =>
    let log := s.log partition
    let queued := { message with offset := nextOffset log + gap }
    { s with log := Function.update s.log partition (log ++ [queued]) }
  | .assign i partition => s.setWorker i { partition, position := s.committed partition }
  | .fetch i count =>
    let w := s.workers i
    if w.phase = .loop ∧ w.batch = [] then
      s.setWorker i { w with batch := (pending (s.log w.partition) w.position).take count }
    else s
  | .stop i =>
    if (s.workers i).phase = .loop then s.setWorker i (s.workers i).leave else s
  | .write i answer =>
    let w := s.workers i
    if w.phase = .loop ∧ w.batch ≠ [] then
      let rows := (w.chunk writer.batchSize).filterMap (toRow writer)
      let wrote := writeChunk s.table rows answer
      { s with table := wrote.1 }.setWorker i
        (if wrote.2 then w.written writer.batchSize else w.leave)
    else s
  | .commit i answer =>
    let w := s.workers i
    match w.phase, (w.chunk writer.batchSize).getLast? with
    | .commit, some last =>
      let committed :=
        { s with committed := Function.update s.committed w.partition (last.offset + 1) }
      match answer with
      | .ok => committed.setWorker i { w with phase := .heartbeat }
      | .lost => committed.setWorker i w.leave
      | .failed => s.setWorker i w.leave
    | _, _ => s
  | .heartbeat i ok =>
    let w := s.workers i
    if w.phase = .heartbeat then
      s.setWorker i
        (if ok then { w with batch := w.batch.drop writer.batchSize, phase := .loop }
        else w.leave)
    else s

/-! ## Logs -/

variable {log : List KafkaMessage} {position : Nat}

/-- The offsets of a partition grow. -/
def Sorted (log : List KafkaMessage) : Prop := log.Pairwise (·.offset < ·.offset)

theorem offset_lt_nextOffset (sorted : Sorted log) {message : KafkaMessage} (member : message ∈ log) :
    message.offset < nextOffset log := by
  rcases List.eq_nil_or_concat log with rfl | ⟨front, last, rfl⟩
  · cases member
  · have next : nextOffset (front ++ [last]) = last.offset + 1 := by
      rw [nextOffset, List.getLast?_concat]
    rw [List.concat_eq_append] at sorted member ⊢
    rw [next]
    rcases List.mem_append.mp member with inFront | isLast
    · have before := (List.pairwise_append.mp sorted).2.2 message inFront last
        (List.mem_singleton.mpr rfl)
      omega
    · rw [List.mem_singleton.mp isLast]
      omega

theorem Sorted.concat (sorted : Sorted log) {message : KafkaMessage}
    (later : nextOffset log ≤ message.offset) : Sorted (log ++ [message]) := by
  refine List.pairwise_append.mpr ⟨sorted, List.pairwise_singleton _ _, ?_⟩
  intro earlier member other isMessage
  rw [List.mem_singleton.mp isMessage]
  have bound := offset_lt_nextOffset sorted member
  omega

theorem nextOffset_concat {message : KafkaMessage} :
    nextOffset (log ++ [message]) = message.offset + 1 := by
  rw [nextOffset, List.getLast?_concat]

/-- What is left to fetch when the front of it is done, up to the message `last`. -/
theorem pending_after {front rest : List KafkaMessage} {last : KafkaMessage} (sorted : Sorted log)
    (cut : front ++ last :: rest <+: pending log position) :
    rest <+: pending log (last.offset + 1) ∧ last ∈ log ∧
      ∀ message ∈ log, message.offset < last.offset + 1 →
        message.offset < position ∨ message ∈ front ++ [last] := by
  obtain ⟨more, shape⟩ := cut
  have kept : pending log position = front ++ last :: (rest ++ more) := by
    rw [← shape]
    simp
  have ordered : Sorted (front ++ last :: (rest ++ more)) := by
    rw [← kept]
    exact sorted.sublist List.filter_sublist
  obtain ⟨-, tailOrdered, across⟩ := List.pairwise_append.mp ordered
  obtain ⟨afterLast, -⟩ := List.pairwise_cons.mp tailOrdered
  have lastPending : last ∈ pending log position := by
    rw [kept]
    simp
  obtain ⟨lastLogged, reached⟩ : last ∈ log ∧ position ≤ last.offset := by
    simpa [pending] using lastPending
  have again : pending log (last.offset + 1) =
      (pending log position).filter fun message => last.offset + 1 ≤ message.offset := by
    rw [pending, pending, List.filter_filter]
    refine List.filter_congr fun message _ => ?_
    rw [← Bool.decide_and, decide_eq_decide]
    omega
  have frontDone : front.filter (fun message => last.offset + 1 ≤ message.offset) = [] := by
    refine List.filter_eq_nil_iff.mpr fun message member => ?_
    have before := across message member last List.mem_cons_self
    simp only [decide_eq_true_eq]
    omega
  have restLeft : (rest ++ more).filter (fun message => last.offset + 1 ≤ message.offset) =
      rest ++ more := by
    refine List.filter_eq_self.mpr fun message member => ?_
    have after := afterLast message member
    simp only [decide_eq_true_eq]
    omega
  refine ⟨?_, lastLogged, ?_⟩
  · rw [again, kept, List.filter_append, frontDone, List.filter_cons_of_neg (by simp), restLeft]
    exact List.prefix_append rest more
  · intro message member early
    by_cases old : message.offset < position
    · exact .inl old
    · have inPending : message ∈ front ++ last :: (rest ++ more) := by
        rw [← kept]
        simp [pending, member, Nat.not_lt.mp old]
      refine .inr ?_
      rcases List.mem_append.mp inPending with inFront | inTail
      · exact List.mem_append_left _ inFront
      · rcases List.mem_cons.mp inTail with rfl | later
        · simp
        · have after := afterLast message later
          omega

/-! ## Inserts -/

variable {writer : Writer} {table : List Row}

/-- The row is in the table, or one with its id is. -/
def Stored (table : List Row) (row : Row) : Prop := row.eventId ∈ table.map Row.eventId

theorem insertRow_spec (row : Row) :
    (table.map Row.eventId ⊆ (insertRow table row).map Row.eventId) ∧ Stored (insertRow table row) row ∧
      ((table.map Row.eventId).Nodup → ((insertRow table row).map Row.eventId).Nodup) ∧
        ∀ other ∈ insertRow table row, other ∈ table ∨ other = row := by
  unfold insertRow
  split
  next there =>
    exact ⟨fun _ => id, there, id, fun _ => .inl⟩
  next missing =>
    refine ⟨by simp, by simp [Stored], ?_, by simp⟩
    intro once
    rw [List.map_append, List.nodup_append]
    refine ⟨once, List.nodup_singleton _, ?_⟩
    intro eventId member other isNew same
    rw [List.map_singleton, List.mem_singleton] at isNew
    exact missing (isNew ▸ same ▸ member)

/-- Rows that are inserted are stored, and nothing else is. -/
theorem insertRows_spec (rows : List Row) :
    (table.map Row.eventId ⊆ (rows.foldl insertRow table).map Row.eventId) ∧
      (∀ row ∈ rows, Stored (rows.foldl insertRow table) row) ∧
        ((table.map Row.eventId).Nodup → ((rows.foldl insertRow table).map Row.eventId).Nodup) ∧
          ∀ other ∈ rows.foldl insertRow table, other ∈ table ∨ other ∈ rows := by
  induction rows generalizing table with
  | nil => exact ⟨fun _ => id, by simp, id, fun _ => .inl⟩
  | cons row rest ih =>
    obtain ⟨grows, isStored, once, known⟩ := @insertRow_spec table row
    obtain ⟨growsRest, restStored, onceRest, knownRest⟩ := @ih (insertRow table row)
    rw [List.foldl_cons]
    refine ⟨fun _ member => growsRest (grows member), ?_, onceRest ∘ once, ?_⟩
    · intro other member
      rcases List.mem_cons.mp member with rfl | later
      · exact growsRest isStored
      · exact restStored other later
    · intro other member
      rcases knownRest other member with inserted | later
      · rcases known other inserted with old | rfl
        · exact .inl old
        · exact .inr List.mem_cons_self
      · exact .inr (List.mem_cons_of_mem row later)

/-- A call that returns has stored its rows, all of which can be stored. -/
theorem writeChunk_spec (rows : List Row) (answer : Answer) :
    (table.map Row.eventId ⊆ (writeChunk table rows answer).1.map Row.eventId) ∧
      ((table.map Row.eventId).Nodup →
        ((writeChunk table rows answer).1.map Row.eventId).Nodup) ∧
        (∀ other ∈ (writeChunk table rows answer).1, other ∈ table ∨ other ∈ rows) ∧
          ((writeChunk table rows answer).2 = true → ∀ row ∈ rows,
            row.storable ∧ Stored (writeChunk table rows answer).1 row) := by
  obtain ⟨grows, areStored, once, known⟩ := @insertRows_spec table rows
  have unchanged : (table.map Row.eventId ⊆ table.map Row.eventId) ∧
      ((table.map Row.eventId).Nodup → (table.map Row.eventId).Nodup) ∧
        ∀ other ∈ table, other ∈ table ∨ other ∈ rows := ⟨fun _ => id, id, fun _ => .inl⟩
  unfold writeChunk
  split
  next none_ =>
    obtain rfl := List.isEmpty_iff.mp none_
    exact ⟨unchanged.1, unchanged.2.1, unchanged.2.2, by simp⟩
  split
  next allStorable =>
    have storable := List.all_eq_true.mp allStorable
    cases answer with
    | ok => exact ⟨grows, once, known, fun _ row member => ⟨storable row member, areStored row member⟩⟩
    | lost => exact ⟨grows, once, known, by simp⟩
    | failed => exact ⟨unchanged.1, unchanged.2.1, unchanged.2.2, by simp⟩
  · exact ⟨unchanged.1, unchanged.2.1, unchanged.2.2, by simp⟩

/-! ## What every run keeps -/

/-- The row of the message, if it has one, is stored and was taken by the database. -/
def Passed (writer : Writer) (table : List Row) (message : KafkaMessage) : Prop :=
  ∀ row, toRow writer message = some row → row.storable ∧ Stored table row

/-- What comes after the chunk in progress. -/
def Worker.rest (writer : Writer) (w : Worker) : List KafkaMessage :=
  match w.phase with
  | .loop => w.batch
  | .commit | .heartbeat => w.batch.drop writer.batchSize

/-- A consumer has written what is before its position, and holds what comes next. -/
structure WorkerInv (writer : Writer) (log : List KafkaMessage) (table : List Row) (w : Worker) :
    Prop where
  reached : w.position ≤ nextOffset log
  passed : ∀ message ∈ log, message.offset < w.position → Passed writer table message
  next : w.rest writer <+: pending log w.position
  last : w.phase = .commit → ∀ last, (w.chunk writer.batchSize).getLast? = some last →
    last.offset + 1 = w.position

structure Inv (writer : Writer) (s : State) : Prop where
  sorted : ∀ p, Sorted (s.log p)
  reached : ∀ p, s.committed p ≤ nextOffset (s.log p)
  passed : ∀ p, ∀ message ∈ s.log p, message.offset < s.committed p →
    Passed writer s.table message
  once : (s.table.map Row.eventId).Nodup
  source : ∀ row ∈ s.table, ∃ p, ∃ message ∈ s.log p, toRow writer message = some row
  workers : ∀ i, WorkerInv writer (s.log (s.workers i).partition) s.table (s.workers i)

variable {s : State} {w : Worker}

theorem Passed.grow {after : List Row} {message : KafkaMessage}
    (passed : Passed writer table message) (grows : table.map Row.eventId ⊆ after.map Row.eventId) :
    Passed writer after message := by
  intro row made
  obtain ⟨storable, stored⟩ := passed row made
  exact ⟨storable, grows stored⟩

theorem WorkerInv.grow {after : List Row} (inv : WorkerInv writer log table w)
    (grows : table.map Row.eventId ⊆ after.map Row.eventId) : WorkerInv writer log after w :=
  { inv with passed := fun message member early => (inv.passed message member early).grow grows }

/-- A message is queued behind everything that was reached. -/
theorem WorkerInv.produce (inv : WorkerInv writer log table w) {message : KafkaMessage}
    (later : nextOffset log ≤ message.offset) : WorkerInv writer (log ++ [message]) table w := by
  constructor
  · rw [nextOffset_concat]
    have := inv.reached
    omega
  · intro other member early
    rcases List.mem_append.mp member with old | new
    · exact inv.passed other old early
    · rw [List.mem_singleton.mp new] at early
      have := inv.reached
      omega
  · rw [pending, List.filter_append]
    exact inv.next.trans (List.prefix_append _ _)
  · exact inv.last

/-- Giving up the batch loses nothing. -/
theorem WorkerInv.leave (inv : WorkerInv writer log table w) : WorkerInv writer log table w.leave :=
  { reached := inv.reached, passed := inv.passed, next := List.nil_prefix,
    last := fun committing => nomatch committing }

theorem Inv.setWorker (inv : Inv writer s) {i : Nat}
    (new : WorkerInv writer (s.log w.partition) s.table w) : Inv writer (s.setWorker i w) := by
  refine { inv with workers := fun j => ?_ }
  by_cases same : j = i
  · subst same
    simpa [State.setWorker] using new
  · simpa [State.setWorker, Function.update_of_ne same] using inv.workers j

theorem Inv.start : Inv writer {} where
  sorted _ := List.Pairwise.nil
  reached _ := Nat.zero_le _
  passed _ _ member := nomatch member
  once := List.nodup_nil
  source _ member := nomatch member
  workers _ :=
    { reached := Nat.zero_le _, passed := fun _ member => (nomatch member),
      next := List.nil_prefix, last := fun committing => nomatch committing }

theorem Inv.produce (inv : Inv writer s) (p gap : Nat) (message : KafkaMessage) :
    Inv writer (step writer s (.produce p gap message)) := by
  let queued : KafkaMessage := { message with offset := nextOffset (s.log p) + gap }
  have later : nextOffset (s.log p) ≤ queued.offset := Nat.le_add_right _ _
  have logs : ∀ q, (step writer s (.produce p gap message)).log q =
      if q = p then s.log p ++ [queued] else s.log q := by
    intro q
    by_cases same : q = p
    · subst same
      simp [step, queued]
    · simp [step, same]
  have kept : ∀ q, ∀ other ∈ s.log q, other ∈ (step writer s (.produce p gap message)).log q := by
    intro q other member
    rw [logs]
    split
    next same =>
      exact List.mem_append_left _ (same ▸ member)
    · exact member
  constructor
  · intro q
    rw [logs]
    split
    · exact (inv.sorted p).concat later
    · exact inv.sorted q
  · intro q
    rw [logs]
    split
    next same =>
      subst same
      rw [nextOffset_concat]
      have := inv.reached q
      change s.committed q ≤ _
      omega
    · exact inv.reached q
  · intro q other member early
    rw [logs] at member
    change other.offset < s.committed q at early
    split at member
    next same =>
      subst same
      rcases List.mem_append.mp member with old | new
      · exact inv.passed q other old early
      · have := inv.reached q
        rw [List.mem_singleton.mp new] at early
        omega
    · exact inv.passed q other member early
  · exact inv.once
  · intro row member
    obtain ⟨q, other, logged, made⟩ := inv.source row member
    exact ⟨q, other, kept q other logged, made⟩
  · intro i
    rw [logs]
    have before := inv.workers i
    change WorkerInv writer _ s.table (s.workers i)
    split
    next same =>
      have here : (s.workers i).partition = p := same
      rw [here] at before
      exact before.produce later
    · exact before

/-- A chunk that is written is passed, and its consumer goes on behind it. -/
theorem WorkerInv.written (inv : WorkerInv writer log table w) (sorted : Sorted log)
    (looping : w.phase = .loop)
    (passed : ∀ message ∈ w.chunk writer.batchSize, Passed writer table message) :
    WorkerInv writer log table (w.written writer.batchSize) := by
  have batch : w.chunk writer.batchSize ++ w.batch.drop writer.batchSize = w.batch :=
    List.take_append_drop _ _
  have next := inv.next
  rw [Worker.rest, looping] at next
  dsimp only at next
  unfold Worker.written
  rcases List.eq_nil_or_concat (w.chunk writer.batchSize) with empty | ⟨front, last, shape⟩
  · rw [empty]
    rw [empty, List.nil_append] at batch
    refine { inv with next := ?_, last := fun committing => nomatch committing }
    change w.batch.drop writer.batchSize <+: pending log w.position
    rw [batch]
    exact next
  · rw [List.concat_eq_append] at shape
    rw [shape, List.getLast?_concat]
    rw [← batch, shape, List.append_assoc, List.singleton_append] at next
    obtain ⟨left, logged, before⟩ := pending_after sorted next
    constructor
    · exact offset_lt_nextOffset sorted logged
    · intro message member early
      rcases before message member early with old | inChunk
      · exact inv.passed message member old
      · exact passed message (shape ▸ inChunk)
    · exact left
    · intro _ other isLast
      have chunk : w.batch.take writer.batchSize = front ++ [last] := shape
      have same : some last = some other := by
        rw [← isLast]
        simp only [Worker.chunk, chunk, List.getLast?_concat]
      rw [Option.some.inj same]

theorem Inv.write (inv : Inv writer s) (i : Nat) (answer : Answer) :
    Inv writer (step writer s (.write i answer)) := by
  simp only [step]
  split
  next open_ =>
    have worker := inv.workers i
    generalize s.workers i = w at worker open_ ⊢
    obtain ⟨grows, once, known, stores⟩ :=
      @writeChunk_spec s.table ((w.chunk writer.batchSize).filterMap (toRow writer)) answer
    generalize writeChunk s.table ((w.chunk writer.batchSize).filterMap (toRow writer)) answer = wrote
      at grows once known stores ⊢
    have next := worker.next
    rw [Worker.rest, open_.1] at next
    have logged : ∀ message ∈ w.chunk writer.batchSize, message ∈ s.log w.partition := by
      intro message member
      exact (List.mem_filter.mp (next.subset (List.mem_of_mem_take member))).1
    have wider : Inv writer { s with table := wrote.1 } := by
      refine { inv with passed := ?_, once := once inv.once, source := ?_, workers := ?_ }
      · intro p message member early
        exact (inv.passed p message member early).grow grows
      · intro row member
        rcases known row member with old | new
        · exact inv.source row old
        · obtain ⟨message, inChunk, made⟩ := List.mem_filterMap.mp new
          exact ⟨w.partition, message, logged message inChunk, made⟩
      · exact fun j => (inv.workers j).grow grows
    refine wider.setWorker ?_
    have grown : WorkerInv writer (s.log w.partition) wrote.1 w := worker.grow grows
    split
    next returned =>
      have passed : ∀ message ∈ w.chunk writer.batchSize, Passed writer wrote.1 message := by
        intro message inChunk row made
        exact stores returned row (List.mem_filterMap.mpr ⟨message, inChunk, made⟩)
      have done := grown.written (inv.sorted w.partition) open_.1 passed
      have same : (w.written writer.batchSize).partition = w.partition := by
        unfold Worker.written
        split <;> rfl
      rw [same]
      exact done
    · exact grown.leave
  · exact inv

theorem Inv.commit (inv : Inv writer s) (i : Nat) (answer : Answer) :
    Inv writer (step writer s (.commit i answer)) := by
  simp only [step]
  split
  next last committing isLast =>
    have worker := inv.workers i
    generalize s.workers i = w at worker committing isLast ⊢
    have at_ : last.offset + 1 = w.position := worker.last committing last isLast
    have behind : Inv writer
        { s with committed := Function.update s.committed w.partition (last.offset + 1) } := by
      refine { inv with reached := ?_, passed := ?_ }
      · intro p
        by_cases same : p = w.partition
        · subst same
          simpa [at_] using worker.reached
        · simpa [Function.update_of_ne same] using inv.reached p
      · intro p message member early
        dsimp only at early
        by_cases same : p = w.partition
        · subst same
          rw [Function.update_self, at_] at early
          exact worker.passed message member early
        · rw [Function.update_of_ne same] at early
          exact inv.passed p message member early
    cases answer with
    | ok =>
      refine behind.setWorker { worker with next := ?_, last := fun committing => nomatch committing }
      have next := worker.next
      rw [Worker.rest, committing] at next
      exact next
    | lost => exact behind.setWorker worker.leave
    | failed => exact inv.setWorker worker.leave
  · exact inv

/-- The invariant is kept by every step. -/
theorem Inv.step (inv : Inv writer s) (op : Op) : Inv writer (step writer s op) := by
  cases op with
  | produce p gap message => exact inv.produce p gap message
  | assign i p =>
    refine inv.setWorker (w := { partition := p, position := s.committed p }) ?_
    exact { reached := inv.reached p, passed := inv.passed p, next := List.nil_prefix,
            last := fun committing => nomatch committing }
  | fetch i count =>
    simp only [EventWriter.step]
    split
    next idle =>
      have worker := inv.workers i
      refine inv.setWorker { worker with next := ?_, last := ?_ }
      · rw [Worker.rest, idle.1]
        exact List.take_prefix _ _
      · intro committing
        rw [idle.1] at committing
        cases committing
    · exact inv
  | stop i =>
    simp only [EventWriter.step]
    split
    · exact inv.setWorker (inv.workers i).leave
    · exact inv
  | write i answer => exact inv.write i answer
  | commit i answer => exact inv.commit i answer
  | heartbeat i ok =>
    simp only [EventWriter.step]
    split
    next beating =>
      have worker := inv.workers i
      cases ok with
      | true =>
        refine inv.setWorker
          { worker with next := ?_, last := fun committing => nomatch committing }
        have next := worker.next
        rw [Worker.rest, beating] at next
        exact next
      | false => exact inv.setWorker worker.leave
    · exact inv

theorem Inv.run (inv : Inv writer s) (ops : List Op) : Inv writer (run (EventWriter.step writer) s ops) := by
  induction ops generalizing s with
  | nil => exact inv
  | cons op rest ih => exact ih (inv.step op)

/-! ## Progress -/

/-- The row of the message, if it has one, is one that the database takes. -/
def Storable (writer : Writer) (message : KafkaMessage) : Prop :=
  ∀ row, toRow writer message = some row → row.storable

def Op.isProduce : Op → Bool
  | .produce .. => true
  | _ => false

/-- What is queued of a partition can all be written and committed. -/
def State.Drains (writer : Writer) (s : State) (p : Nat) : Prop :=
  ∃ ops, (∀ op ∈ ops, op.isProduce = false) ∧
    ∀ message ∈ s.log p, message.offset < (Runs.run (step writer) s ops).committed p

theorem log_step {op : Op} (consumes : op.isProduce = false) : (step writer s op).log = s.log := by
  cases op with
  | produce p gap message => cases consumes
  | assign i p => rfl
  | fetch i count | stop i | write i answer | heartbeat i ok =>
    simp only [step]
    split <;> rfl
  | commit i answer =>
    simp only [step]
    split
    · cases answer <;> rfl
    · rfl

theorem log_run {ops : List Op} (consume : ∀ op ∈ ops, op.isProduce = false) :
    (Runs.run (step writer) s ops).log = s.log := by
  induction ops generalizing s with
  | nil => rfl
  | cons op rest ih =>
    rw [run_cons, ih fun other member => consume other (List.mem_cons_of_mem op member),
      log_step (consume op List.mem_cons_self)]

/-- What was committed was taken. -/
theorem Inv.storable_of_drains (inv : Inv writer s) {p : Nat} (drains : s.Drains writer p)
    {message : KafkaMessage} (member : message ∈ s.log p) : Storable writer message := by
  obtain ⟨ops, consume, committed⟩ := drains
  intro row made
  have after := inv.run ops
  have logged : message ∈ (Runs.run (EventWriter.step writer) s ops).log p := by
    rw [log_run consume]
    exact member
  exact (after.passed p message logged (committed message member) row made).1

/-- One turn of the loop, when nothing fails. -/
theorem run_chunk {i : Nat} {front : List KafkaMessage} {last : KafkaMessage}
    (looping : (s.workers i).phase = .loop)
    (shape : (s.workers i).chunk writer.batchSize = front ++ [last])
    (storable : ∀ message ∈ front ++ [last], Storable writer message) :
    ∃ table, Runs.run (step writer) s [.write i .ok, .commit i .ok, .heartbeat i true] =
      { s with
        table
        committed := Function.update s.committed (s.workers i).partition (last.offset + 1)
        workers := Function.update s.workers i
          { s.workers i with
            position := last.offset + 1
            batch := (s.workers i).batch.drop writer.batchSize } } := by
  have some_ : (s.workers i).batch ≠ [] := by
    intro empty
    rw [Worker.chunk, empty, List.take_nil] at shape
    simp at shape
  have isLast : ((s.workers i).chunk writer.batchSize).getLast? = some last := by
    rw [shape, List.getLast?_concat]
  have taken : ∀ row ∈ (front ++ [last]).filterMap (toRow writer), row.storable = true := by
    intro row member
    obtain ⟨message, inChunk, made⟩ := List.mem_filterMap.mp member
    exact storable message inChunk row made
  obtain ⟨table, wrote⟩ : ∃ table,
      writeChunk s.table ((front ++ [last]).filterMap (toRow writer)) .ok = (table, true) := by
    unfold writeChunk
    split
    · exact ⟨_, rfl⟩
    · rw [if_pos (List.all_eq_true.mpr taken)]
      exact ⟨_, rfl⟩
  refine ⟨table, ?_⟩
  have first : step writer s (.write i .ok) =
      { s with table }.setWorker i
        { s.workers i with phase := .commit, position := last.offset + 1 } := by
    simp only [step]
    rw [if_pos ⟨looping, some_⟩, shape, wrote]
    simp only [Worker.written, isLast, if_true]
  rw [run_cons, first, run_cons, run_cons, run_nil]
  simp only [step, State.setWorker, Function.update_self, Worker.chunk] at isLast ⊢
  rw [isLast]
  simp only [Function.update_self, Function.update_idem, if_true, looping]

/-- A batch whose rows the database takes is written and committed to its end. -/
theorem drain_batch {i : Nat} (inv : Inv writer s) (positive : 0 < writer.batchSize)
    (looping : (s.workers i).phase = .loop)
    (behind : s.committed (s.workers i).partition ≤ (s.workers i).position)
    (storable : ∀ message ∈ (s.workers i).batch, Storable writer message) :
    ∃ ops, (∀ op ∈ ops, op.isProduce = false) ∧
      s.committed (s.workers i).partition ≤
        (Runs.run (step writer) s ops).committed (s.workers i).partition ∧
      ∀ message ∈ (s.workers i).batch,
        message.offset < (Runs.run (step writer) s ops).committed (s.workers i).partition := by
  generalize size : (s.workers i).batch.length = n
  induction n using Nat.strong_induction_on generalizing s with
  | _ n ih =>
    rcases List.eq_nil_or_concat ((s.workers i).chunk writer.batchSize) with
      empty | ⟨front, last, shape⟩
    · have none_ : (s.workers i).batch = [] := by
        rcases List.take_eq_nil_iff.mp empty with zero | none_
        · omega
        · exact none_
      exact ⟨[], by simp, Nat.le_refl _, by simp [none_]⟩
    · rw [List.concat_eq_append] at shape
      have batch : (front ++ [last]) ++ (s.workers i).batch.drop writer.batchSize =
          (s.workers i).batch := by
        rw [← shape]
        exact List.take_append_drop _ _
      have next := (inv.workers i).next
      rw [Worker.rest, looping] at next
      dsimp only at next
      obtain ⟨-, reached⟩ : last ∈ s.log (s.workers i).partition ∧
          (s.workers i).position ≤ last.offset := by
        have member : last ∈ (s.workers i).batch := by
          rw [← batch]
          simp
        simpa [pending] using next.subset member
      obtain ⟨table, turn⟩ := run_chunk looping shape fun message member =>
        storable message (batch ▸ List.mem_append_left _ member)
      have invAfter := inv.run [.write i .ok, .commit i .ok, .heartbeat i true]
      have shorter : ((s.workers i).batch.drop writer.batchSize).length < n := by
        have some_ := congrArg List.length batch
        simp only [List.length_append, List.length_singleton] at some_
        omega
      generalize after : Runs.run (step writer) s [.write i .ok, .commit i .ok, .heartbeat i true] =
        s' at turn invAfter
      have worker : s'.workers i = { s.workers i with
          position := last.offset + 1
          batch := (s.workers i).batch.drop writer.batchSize } := by
        rw [turn]
        exact Function.update_self ..
      have committed : s'.committed (s.workers i).partition = last.offset + 1 := by
        rw [turn]
        exact Function.update_self ..
      obtain ⟨ops, consume, further, done⟩ := ih _ shorter invAfter
        (by rw [worker]; exact looping)
        (by rw [worker]; exact Nat.le_of_eq committed)
        (by
          rw [worker]
          exact fun message member => storable message (List.mem_of_mem_drop member))
        (by rw [worker])
      rw [worker] at further done
      dsimp only at further done
      rw [committed] at further
      refine ⟨[.write i .ok, .commit i .ok, .heartbeat i true] ++ ops, ?_, ?_, ?_⟩
      · intro op member
        rcases List.mem_append.mp member with turned | later
        · simp only [List.mem_cons, List.not_mem_nil, or_false] at turned
          rcases turned with rfl | rfl | rfl <;> rfl
        · exact consume op later
      · rw [run_append, after]
        omega
      · intro message member
        rw [run_append, after]
        rw [← batch] at member
        rcases List.mem_append.mp member with inChunk | later
        · have ordered : Sorted (front ++ [last]) := by
            have whole : Sorted (pending (s.log (s.workers i).partition) (s.workers i).position) :=
              (inv.sorted _).sublist List.filter_sublist
            have first : front ++ [last] <+: (s.workers i).batch := ⟨_, batch⟩
            exact whole.sublist (first.trans next).sublist
          have early := offset_lt_nextOffset ordered inChunk
          rw [nextOffset_concat] at early
          omega
        · exact done message later

/-- What is queued is written and committed if the database takes all that is not committed. -/
theorem Inv.drains (inv : Inv writer s) {p : Nat}
    (ready : ∀ message ∈ s.log p, s.committed p ≤ message.offset →
      0 < writer.batchSize ∧ Storable writer message) : s.Drains writer p := by
  by_cases nothing : pending (s.log p) (s.committed p) = []
  · refine ⟨[], by simp, ?_⟩
    intro message member
    by_contra late
    have waiting : message ∈ pending (s.log p) (s.committed p) := by
      simpa [pending, member] using late
    rw [nothing] at waiting
    cases waiting
  · obtain ⟨first, waiting⟩ := List.exists_mem_of_ne_nil _ nothing
    have logged : ∀ message ∈ pending (s.log p) (s.committed p),
        message ∈ s.log p ∧ s.committed p ≤ message.offset := by
      simp [pending]
    have positive : 0 < writer.batchSize :=
      (ready first (logged first waiting).1 (logged first waiting).2).1
    -- The first consumer starts again, fetches all there is and writes it.
    let fetched : State := s.setWorker 0
      { partition := p, position := s.committed p, batch := pending (s.log p) (s.committed p) }
    have taken : (pending (s.log p) (s.committed p)).take (s.log p).length =
        pending (s.log p) (s.committed p) := List.take_of_length_le (List.length_filter_le _ _)
    have twoSteps : Runs.run (EventWriter.step writer) s [.assign 0 p, .fetch 0 (s.log p).length] =
        fetched := by
      simp [EventWriter.step, State.setWorker, taken, fetched]
    have invFetched : Inv writer fetched := twoSteps ▸ inv.run _
    have worker : fetched.workers 0 =
        { partition := p, position := s.committed p,
          batch := pending (s.log p) (s.committed p) } := by
      simp [fetched, State.setWorker]
    obtain ⟨ops, consume, further, done⟩ := drain_batch (i := 0) invFetched positive
      (by rw [worker]) (by rw [worker]; exact Nat.le_refl _)
      (by
        rw [worker]
        exact fun message member =>
          (ready message (logged message member).1 (logged message member).2).2)
    rw [worker] at further done
    dsimp only at further done
    change s.committed p ≤ _ at further
    refine ⟨[.assign 0 p, .fetch 0 (s.log p).length] ++ ops, ?_, ?_⟩
    · intro op member
      rcases List.mem_append.mp member with setUp | later
      · simp only [List.mem_cons, List.not_mem_nil, or_false] at setUp
        rcases setUp with rfl | rfl <;> rfl
      · exact consume op later
    · intro message member
      rw [run_append, twoSteps]
      by_cases old : message.offset < s.committed p
      · omega
      · exact done message (by simpa [pending, member] using old)

/-- Chunks of no messages are never committed. -/
theorem committed_run_of_zero (none_ : writer.batchSize = 0) (ops : List Op) :
    (Runs.run (step writer) s ops).committed = s.committed := by
  induction ops generalizing s with
  | nil => rfl
  | cons op rest ih =>
    rw [run_cons, ih]
    cases op with
    | produce p gap message => rfl
    | assign i p => rfl
    | commit i answer => simp [step, Worker.chunk, none_]
    | fetch i count | stop i | write i answer | heartbeat i ok =>
      simp only [step]
      split <;> rfl

/-! ## What the writers do -/

/-- Each event is stored once, offsets are committed when what is before them is stored, and
whatever is queued can be written. -/
structure Lawful (writer : Writer) (s : State) : Prop where
  once : (s.table.map Row.eventId).Nodup
  source : ∀ row ∈ s.table, ∃ p, ∃ message ∈ s.log p, toRow writer message = some row
  stored : ∀ p, ∀ message ∈ s.log p, message.offset < s.committed p →
    ∀ row, toRow writer message = some row → Stored s.table row
  progress : ∀ p, s.Drains writer p

/-- A run is lawful where the database takes the row of every message that is not committed, and
only there. -/
theorem events_stored_once (writer : Writer) (ops : List Op) :
    let s := Runs.run (step writer) {} ops
    Lawful writer s ↔ ∀ p, ∀ message ∈ s.log p, s.committed p ≤ message.offset →
      0 < writer.batchSize ∧ Storable writer message := by
  intro s
  have inv : Inv writer s := Inv.start.run ops
  constructor
  · intro lawful p message member late
    refine ⟨?_, inv.storable_of_drains (lawful.progress p) member⟩
    obtain ⟨drain, -, committed⟩ := lawful.progress p
    refine Nat.pos_of_ne_zero fun none_ => ?_
    have early := committed message member
    rw [committed_run_of_zero none_] at early
    omega
  · intro ready
    exact {
      once := inv.once
      source := inv.source
      stored := fun p message member early row made => (inv.passed p message member early row made).2
      progress := fun p => inv.drains (ready p) }

/-- The text of an envelope whose payload is a string of one U+0000. -/
def nulEnvelope : JsString :=
  js "\x7b\"type\":\"log\",\"msgId\":\"m1\",\"payload\":\"\\u0000\"\x7d"

def nulMessage : KafkaMessage :=
  { key := some (js "d1"), receivedAt := .single (js "2025-01-01T00:00:00.000Z"),
    value := some nulEnvelope }

def sampleWriter : Writer where
  batchSize := 100
  parseJson text :=
    if text = nulEnvelope then
      some (.object [(js "type", .string (js "log")), (js "msgId", .string (js "m1")),
        (js "payload", .string [0])])
    else none
  parseDate text := if text = js "2025-01-01T00:00:00.000Z" then some 1735689600000 else none

/-- One event with U+0000 in its payload, and its partition is never drained. -/
theorem nul_not_lawful :
    ¬ Lawful sampleWriter (Runs.run (step sampleWriter) {} [.produce 0 0 nulMessage]) := by
  intro lawful
  have inv : Inv sampleWriter (Runs.run (step sampleWriter) {} [.produce 0 0 nulMessage]) :=
    Inv.start.run _
  have logged : nulMessage ∈ (Runs.run (step sampleWriter) {} [.produce 0 0 nulMessage]).log 0 := by
    simp [step, nextOffset, nulMessage]
  have storable := inv.storable_of_drains (lawful.progress 0) logged
  have refused : (toRow sampleWriter nulMessage).any fun row => !row.storable := by decide
  obtain ⟨row, made, notStorable⟩ := (Option.any_eq_true _ _).mp refused
  rw [storable row made] at notStorable
  cases notStorable

end HelixKit.Backend.EventWriter
