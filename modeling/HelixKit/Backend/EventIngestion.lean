/-
Purpose: The bridge that collects the events of the devices from MQTT and publishes them to
  Kafka in batches.
Trusted boundary: none
Main exports: events_kept
-/
import HelixKit.Backend.JsText
import HelixKit.Lib.Runs
import Mathlib.Data.List.Flatten
import Mathlib.Data.List.Perm.Subperm

namespace HelixKit.Backend.EventIngestion

open HelixKit.Runs

/-! ## Topics -/

structure ParsedDeviceEventTopic where
  deviceId : String
  service : String
deriving Repr, DecidableEq

def parseDeviceEventTopic (topic : String) : Option ParsedDeviceEventTopic :=
  match (topic.toList.splitOn '/').map String.ofList with
  | [namespace_, device, deviceSegment, service, serviceSegment, event] =>
    if namespace_ ≠ "helix" ∨ device ≠ "device" ∨ service ≠ "service" ∨ event ≠ "event" then none
    else
      let deviceId := JsText.trim deviceSegment
      let service := JsText.trim serviceSegment
      if deviceId = "" ∨ service = "" then none else some { deviceId, service }
  | _ => none

/-! ## The bridge -/

structure RawDeviceEvent where
  deviceId : String
  payload : List UInt8
  receivedAt : String
deriving Repr, DecidableEq

abbrev Batch : Type := List RawDeviceEvent

/-- `flushTimer` says whether the timer is set. The promises of `publishBatch` that are not
settled are `inFlight`; `published` and `failed` are those that have been, and `received` are the
events of all messages. -/
structure Bridge where
  buffer : Batch := []
  flushTimer : Bool := false
  received : Batch := []
  inFlight : List Batch := []
  published : List Batch := []
  failed : List Batch := []
deriving Repr, DecidableEq

def Bridge.flush (b : Bridge) : Bridge :=
  if b.buffer = [] then { b with flushTimer := false }
  else { b with flushTimer := false, buffer := [], inFlight := b.inFlight ++ [b.buffer] }

def Bridge.scheduleFlush (b : Bridge) : Bridge := { b with flushTimer := true }

def Bridge.push (b : Bridge) (event : RawDeviceEvent) : Bridge :=
  { b with buffer := b.buffer ++ [event], received := b.received ++ [event] }

inductive Op where
  | message (topic : String) (payload : List UInt8) (now : String)
  | timer
  /-- A `publishBatch` succeeds, or fails, which is logged. -/
  | settle (i : Nat) (ok : Bool)
deriving Repr, DecidableEq

/-- A step that cannot be taken changes nothing. -/
def step (batchSize : Nat) (b : Bridge) : Op → Bridge
  | .message topic payload now =>
    match parseDeviceEventTopic topic with
    | none => b
    | some parsed =>
      let pushed := b.push { deviceId := parsed.deviceId, payload, receivedAt := now }
      if batchSize ≤ pushed.buffer.length then pushed.flush else pushed.scheduleFlush
  | .timer => if b.flushTimer then b.flush else b
  | .settle i ok =>
    match b.inFlight[i]? with
    | none => b
    | some batch =>
      let settled := { b with inFlight := b.inFlight.eraseIdx i }
      if ok then { settled with published := settled.published ++ [batch] }
      else { settled with failed := settled.failed ++ [batch] }

/-! ## Where the events are -/

def Bridge.kept (b : Bridge) : Batch := b.buffer ++ b.inFlight.flatten ++ b.published.flatten

/-- Each event that was received is in the buffer, in a batch that is being published or in one
that was. -/
def Kept (b : Bridge) : Prop := b.received.Subperm b.kept

/-- A batch that is being published is published. -/
def Publishes (b : Bridge) : Op → Prop
  | .settle i ok => i < b.inFlight.length → ok = true
  | _ => True

/-- Batches are not empty, and each event is in one place. -/
structure Inv (b : Bridge) : Prop where
  full : ∀ batch ∈ b.inFlight ++ b.failed, batch ≠ []
  placed : b.received.Perm (b.kept ++ b.failed.flatten)

theorem Inv.start : Inv {} := ⟨by simp, List.Perm.refl _⟩

variable {b : Bridge}

theorem Inv.push (inv : Inv b) (event : RawDeviceEvent) : Inv (b.push event) := by
  constructor
  · exact inv.full
  · apply List.perm_iff_count.mpr
    intro e
    have before := inv.placed.count_eq e
    simp only [Bridge.push, Bridge.kept, List.count_append] at before ⊢
    omega

theorem Inv.flush (inv : Inv b) : Inv b.flush := by
  unfold Bridge.flush
  split
  · exact ⟨inv.full, inv.placed⟩
  next full =>
    constructor
    · intro batch member
      rcases List.mem_append.mp member with pending | failed
      · rcases List.mem_append.mp pending with old | new
        · exact inv.full batch (List.mem_append_left _ old)
        · rw [List.mem_singleton.mp new]
          exact full
      · exact inv.full batch (List.mem_append_right _ failed)
    · apply List.perm_iff_count.mpr
      intro e
      have before := inv.placed.count_eq e
      simp only [Bridge.kept, List.flatten_append, List.flatten_singleton, List.count_append,
        List.count_nil] at before ⊢
      omega

/-- A batch is taken out of those in flight. -/
theorem count_flatten_eraseIdx {batches : List Batch} {i : Nat} {batch : Batch}
    (found : batches[i]? = some batch) (e : RawDeviceEvent) :
    batches.flatten.count e = batch.count e + (batches.eraseIdx i).flatten.count e := by
  obtain ⟨bound, rfl⟩ := List.getElem?_eq_some_iff.mp found
  have same := (List.getElem_cons_eraseIdx_perm bound).symm.flatten.count_eq e
  rwa [List.flatten_cons, List.count_append] at same

theorem Inv.settle (inv : Inv b) (batchSize i : Nat) (ok : Bool) :
    Inv (step batchSize b (.settle i ok)) := by
  simp only [step]
  split
  · exact inv
  next batch found =>
    have taken := count_flatten_eraseIdx found
    have pending : ∀ other ∈ b.inFlight.eraseIdx i, other ≠ [] := by
      intro other member
      exact inv.full other (List.mem_append_left _ (List.mem_of_mem_eraseIdx member))
    cases ok with
    | true =>
      constructor
      · intro other member
        rcases List.mem_append.mp member with left | failed
        · exact pending other left
        · exact inv.full other (List.mem_append_right _ failed)
      · apply List.perm_iff_count.mpr
        intro e
        have before := inv.placed.count_eq e
        simp only [Bridge.kept, ↓reduceIte, List.flatten_append, List.flatten_singleton,
          List.count_append, taken] at before ⊢
        omega
    | false =>
      constructor
      · intro other member
        rcases List.mem_append.mp member with left | failed
        · exact pending other left
        · rcases List.mem_append.mp failed with old | new
          · exact inv.full other (List.mem_append_right _ old)
          · rw [List.mem_singleton.mp new]
            exact inv.full batch (List.mem_append_left _ (List.mem_of_getElem? found))
      · apply List.perm_iff_count.mpr
        intro e
        have before := inv.placed.count_eq e
        simp only [Bridge.kept, Bool.false_eq_true, ↓reduceIte, List.flatten_append,
          List.flatten_singleton, List.count_append, taken] at before ⊢
        omega

theorem Inv.step {b : Bridge} (inv : Inv b) (batchSize : Nat) (op : Op) :
    Inv (step batchSize b op) := by
  cases op with
  | message topic payload now =>
    simp only [EventIngestion.step]
    split
    · exact inv
    rename_i parsed _
    have pushed := inv.push { deviceId := parsed.deviceId, payload, receivedAt := now }
    split
    · exact pushed.flush
    · exact ⟨pushed.full, pushed.placed⟩
  | timer =>
    simp only [EventIngestion.step]
    split
    · exact inv.flush
    · exact inv
  | settle i ok => exact inv.settle batchSize i ok

/-- No event is anywhere else just when no batch has failed. -/
theorem Inv.kept_iff (inv : Inv b) : Kept b ↔ b.failed = [] := by
  constructor
  · intro kept
    have fewer := kept.length_le
    rw [inv.placed.length_eq, List.length_append] at fewer
    have nothing : b.failed.flatten = [] := List.eq_nil_of_length_eq_zero (by omega)
    apply List.eq_nil_iff_forall_not_mem.mpr
    intro batch member
    exact inv.full batch (List.mem_append_right _ member)
      (List.flatten_eq_nil_iff.mp nothing batch member)
  · intro none_
    have placed := inv.placed
    rw [none_, List.flatten_nil, List.append_nil] at placed
    exact placed.subperm

/-! ## What a step adds to the batches that failed -/

@[simp] theorem failed_flush (b : Bridge) : b.flush.failed = b.failed := by
  unfold Bridge.flush
  split <;> rfl

theorem failed_step (batchSize : Nat) (b : Bridge) (op : Op) :
    (step batchSize b op).failed = b.failed ∧ Publishes b op ∨
      (step batchSize b op).failed ≠ [] ∧ ¬Publishes b op := by
  cases op with
  | message topic payload now =>
    left
    refine ⟨?_, trivial⟩
    simp only [step]
    split
    · rfl
    split
    · rw [failed_flush]
      rfl
    · rfl
  | timer =>
    left
    refine ⟨?_, trivial⟩
    simp only [step]
    split
    · exact failed_flush b
    · rfl
  | settle i ok =>
    simp only [step, Publishes]
    split
    next none_ =>
      left
      refine ⟨rfl, fun bound => ?_⟩
      exact absurd bound (Nat.not_lt.mpr (List.getElem?_eq_none_iff.mp none_))
    next batch found =>
      have bound := (List.getElem?_eq_some_iff.mp found).1
      cases ok with
      | true => exact .inl ⟨rfl, fun _ => rfl⟩
      | false =>
        right
        constructor
        · simp
        · intro publishes
          cases publishes bound

/-- A batch that has failed stays so. -/
theorem failed_run (batchSize : Nat) (ops : List Op) (failed : b.failed ≠ []) :
    (run (step batchSize) b ops).failed ≠ [] := by
  induction ops generalizing b with
  | nil => exact failed
  | cons op rest ih =>
    apply ih
    rcases failed_step batchSize b op with ⟨same, -⟩ | ⟨more, -⟩
    · rwa [same]
    · exact more

theorem failed_run_iff (batchSize : Nat) (ops : List Op) (none_ : b.failed = []) :
    (run (step batchSize) b ops).failed = [] ↔ Along (step batchSize) Publishes b ops := by
  induction ops generalizing b with
  | nil => exact iff_of_true none_ trivial
  | cons op rest ih =>
    rcases failed_step batchSize b op with ⟨same, publishes⟩ | ⟨more, fails⟩
    · rw [run_cons, ih (same.trans none_)]
      exact ⟨fun later => ⟨publishes, later⟩, And.right⟩
    · exact iff_of_false (failed_run batchSize rest more) fun along => fails along.1

theorem Inv.run {b : Bridge} (inv : Inv b) (batchSize : Nat) (ops : List Op) :
    Inv (run (EventIngestion.step batchSize) b ops) := by
  induction ops generalizing b with
  | nil => exact inv
  | cons op rest ih => exact ih (inv.step batchSize op)

/-- At all times of a run each event is kept, just when no `publishBatch` of the run fails. -/
theorem events_kept (batchSize : Nat) (ops : List Op) :
    (∀ before, before <+: ops → Kept (run (step batchSize) {} before)) ↔
      Along (step batchSize) Publishes {} ops := by
  have kept_iff (before : List Op) :
      Kept (run (step batchSize) {} before) ↔ Along (step batchSize) Publishes {} before :=
    (Inv.start.run batchSize before).kept_iff.trans (failed_run_iff batchSize before rfl)
  constructor
  · intro always
    exact (kept_iff ops).mp (always ops (List.prefix_refl ops))
  · rintro along before ⟨after, rfl⟩
    exact (kept_iff before).mpr (along_append.mp along).1

/-- A batch of one event is not published. -/
theorem event_lost :
    ¬Kept (run (step 500) {}
      [.message "helix/device/d1/service/shell/event" [0x7b, 0x7d] "2026-01-01T00:00:00.000Z",
        .timer, .settle 0 false]) := by
  intro kept
  have fewer := kept.length_le
  revert fewer
  decide

end HelixKit.Backend.EventIngestion
