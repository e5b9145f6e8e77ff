/-
Purpose: The receive buffer of the C stream session: the WebSocket client delivers a binary
  message in fragments, and the event handler puts them together and dispatches the frame.
Trusted boundary: the peer sends every message as one WebSocket frame; the client delivers the
  fragments of a message in order and without gaps, and a connection can end inside a message
Main exports: dispatches_whole_iff
-/
import HelixKit.Lib.Buffer
import HelixKit.Lib.Runs

namespace HelixKit.Esp32.StreamReassembly

open Buffer (put)
open Runs (Along)

/-! ## The handler -/

/-- The part of the session that the handler keeps: `rx_cap` is the length of `rx`. -/
structure Session where
  rx : List UInt8 := []
  rx_len : Nat := 0
  closed : Bool := false
deriving DecidableEq

/-- A `WEBSOCKET_EVENT_DATA`, with what `realloc` finds behind the old buffer if the handler calls
it: `none` where it returns NULL. -/
structure DataEvent where
  op_code : Nat
  payload_len : Nat
  payload_offset : Nat
  data : List UInt8
  fresh : Option (Nat → UInt8)

/-- The events of the connection itself. -/
inductive StatusEvent where
  | connected
  | disconnected
  | closed
  | error
  | other

inductive Event where
  | data (event : DataEvent)
  | status (event : StatusEvent)

inductive Output where
  | reallocFailed (bytes : Nat)
  | dispatch_frame (frame : List UInt8)
  | on_session_close
deriving DecidableEq

def realloc (rx : List UInt8) (size : Nat) (fresh : Option (Nat → UInt8)) : Option (List UInt8) :=
  fresh.map fun byte => rx ++ (List.range (size - rx.length)).map byte

def ws_data_handler (s : Session) (data : DataEvent) : Session × List Output :=
  if data.op_code ≠ 0x02 then (s, [])
  else
    let rx_len := if data.payload_offset = 0 then 0 else s.rx_len
    let grown :=
      if data.payload_len > s.rx.length then realloc s.rx data.payload_len data.fresh
      else some s.rx
    match grown with
    | none => ({ s with rx_len }, [.reallocFailed data.payload_len])
    | some rx =>
      let rx := if data.data.length > 0 then put rx data.payload_offset data.data else rx
      let rx_len := if data.data.length > 0 then data.payload_offset + data.data.length else rx_len
      if rx_len ≥ data.payload_len ∧ data.payload_len > 0 then
        ({ s with rx, rx_len := 0 }, [.dispatch_frame (rx.take rx_len)])
      else ({ s with rx, rx_len }, [])

def ws_event_handler (s : Session) : Event → Session × List Output
  | .data event => ws_data_handler s event
  | .status .disconnected | .status .closed | .status .error =>
    ({ s with closed := true }, [.on_session_close])
  | .status .connected | .status .other => (s, [])

/-! ## The client library -/

/-- A part of a message in the client's own buffer. -/
structure Fragment where
  bytes : List UInt8
  fresh : Option (Nat → UInt8)

def joined (fragments : List Fragment) : List UInt8 :=
  fragments.flatMap Fragment.bytes

/-- A message of the peer and the fragments of it that arrive. -/
structure Delivery where
  op_code : Nat
  message : List UInt8
  fragments : List Fragment
  received : joined fragments <+: message

/-- The events of the fragments from a place in the message on. -/
def fragmentEvents (op_code payload_len : Nat) : Nat → List Fragment → List Event
  | _, [] => []
  | offset, fragment :: rest =>
    .data ⟨op_code, payload_len, offset, fragment.bytes, fragment.fresh⟩ ::
      fragmentEvents op_code payload_len (offset + fragment.bytes.length) rest

inductive Arrival where
  | message (delivery : Delivery)
  | status (event : StatusEvent)

def Arrival.events : Arrival → List Event
  | .message delivery =>
    fragmentEvents delivery.op_code delivery.message.length 0 delivery.fragments
  | .status event => [.status event]

/-- The session after some events, and what they made the handler do. -/
def handle (s : Session) : List Event → Session × List Output
  | [] => (s, [])
  | event :: rest =>
    let first := ws_event_handler s event
    let later := handle first.1 rest
    (later.1, first.2 ++ later.2)

def receive (s : Session) (arrival : Arrival) : Session :=
  (handle s arrival.events).1

def outputs (s : Session) (arrival : Arrival) : List Output :=
  (handle s arrival.events).2

/-- A frame that is dispatched is a message of the peer, and no allocation for it failed. -/
def DispatchesWhole (s : Session) (arrival : Arrival) : Prop :=
  ∀ frame, .dispatch_frame frame ∈ outputs s arrival →
    (∃ delivery, arrival = .message delivery ∧ frame = delivery.message) ∧
      ∀ bytes, .reallocFailed bytes ∉ outputs s arrival

/-- The first fragments, those in which `realloc` fails. -/
def lost (fragments : List Fragment) : List Fragment :=
  fragments.takeWhile fun fragment => fragment.fresh.isNone

/-- The fragments from the first one on in which `realloc` succeeds. -/
def kept (fragments : List Fragment) : List Fragment :=
  fragments.dropWhile fun fragment => fragment.fresh.isNone

/-- A message that is longer than the buffer and arrives as a whole, for which `realloc` fails at
first and succeeds before the last byte is there. -/
def GrowsLate (s : Session) : Arrival → Prop
  | .status _ => False
  | .message delivery =>
    delivery.op_code = 0x02 ∧ s.rx.length < delivery.message.length ∧
      joined delivery.fragments = delivery.message ∧
      lost delivery.fragments ≠ [] ∧ joined (kept delivery.fragments) ≠ []

/-! ## The buffer is large enough -/

theorem joined_cons (fragment : Fragment) (rest : List Fragment) :
    joined (fragment :: rest) = fragment.bytes ++ joined rest := rfl

theorem handle_cons (s : Session) (event : Event) (rest : List Event) :
    handle s (event :: rest) =
      ((handle (ws_event_handler s event).1 rest).1,
        (ws_event_handler s event).2 ++ (handle (ws_event_handler s event).1 rest).2) := rfl

theorem take_put {rx bytes : List UInt8} {offset : Nat}
    (inside : offset + bytes.length ≤ rx.length) :
    (put rx offset bytes).take (offset + bytes.length) = rx.take offset ++ bytes := by
  have front : (rx.take offset ++ bytes).length = offset + bytes.length := by
    rw [List.length_append, List.length_take]
    omega
  rw [put, List.take_left' front]

theorem length_put {rx bytes : List UInt8} {offset : Nat}
    (inside : offset + bytes.length ≤ rx.length) :
    (put rx offset bytes).length = rx.length := by
  simp only [put, List.length_append, List.length_take, List.length_drop]
  omega

variable {s : Session} {total : Nat}

/-- A fragment without bytes changes nothing but the length at the start of a message. -/
theorem handler_empty {offset : Nat} {fresh : Option (Nat → UInt8)}
    (fits : total ≤ s.rx.length) (behind : offset = 0 ∨ s.rx_len < total) :
    ws_data_handler s ⟨0x02, total, offset, [], fresh⟩ =
      ({ s with rx_len := if offset = 0 then 0 else s.rx_len }, []) := by
  have short : ¬ ((if offset = 0 then 0 else s.rx_len) ≥ total ∧ total > 0) := by
    split <;> omega
  simp [ws_data_handler, Nat.not_lt.mpr fits, short]

/-- A fragment with bytes in it is stored, and the last one completes the frame. -/
theorem handler_stores {offset : Nat} {bytes : List UInt8}
    (fresh : Option (Nat → UInt8)) (fits : total ≤ s.rx.length) (some_bytes : bytes ≠ [])
    (inside : offset + bytes.length ≤ total) :
    ws_data_handler s ⟨0x02, total, offset, bytes, fresh⟩ =
      if offset + bytes.length = total then
        ({ s with rx := put s.rx offset bytes, rx_len := 0 },
          [.dispatch_frame (s.rx.take offset ++ bytes)])
      else
        ({ s with rx := put s.rx offset bytes, rx_len := offset + bytes.length }, []) := by
  have positive : 0 < bytes.length := List.length_pos_of_ne_nil some_bytes
  have complete : offset + bytes.length ≥ total ∧ total > 0 ↔ offset + bytes.length = total := by
    omega
  simp only [ws_data_handler, ne_eq, not_true_eq_false, if_false, gt_iff_lt, Nat.not_lt.mpr fits,
    positive, if_true, complete]
  split
  · rw [take_put (by omega)]
  · rfl

/-- In a buffer that is large enough the message is dispatched with its last byte. -/
theorem stored_outputs (fragments : List Fragment) :
    ∀ (s : Session) (offset : Nat), total ≤ s.rx.length →
      offset + (joined fragments).length ≤ total → offset = 0 ∨ s.rx_len < total →
      (handle s (fragmentEvents 0x02 total offset fragments)).2 =
        if joined fragments ≠ [] ∧ offset + (joined fragments).length = total then
          [.dispatch_frame (s.rx.take offset ++ joined fragments)]
        else [] := by
  induction fragments with
  | nil =>
    intro s offset _ _ _
    simp [joined, fragmentEvents, handle]
  | cons fragment rest ih =>
    intro s offset fits size behind
    rw [joined_cons, List.length_append] at size
    by_cases empty : fragment.bytes = []
    · have step : ws_event_handler s (.data ⟨0x02, total, offset, fragment.bytes,
          fragment.fresh⟩) = ({ s with rx_len := if offset = 0 then 0 else s.rx_len }, []) := by
        rw [empty]
        exact handler_empty fits behind
      have length : (if offset = 0 then 0 else s.rx_len) < total ∨ offset = 0 := by
        split <;> omega
      have later := ih { s with rx_len := if offset = 0 then 0 else s.rx_len } offset fits
        (by simpa [empty] using size) length.symm
      rw [fragmentEvents, handle_cons, step]
      dsimp only
      rw [empty, List.length_nil, Nat.add_zero, later, joined_cons, empty]
      rfl
    · have positive : 0 < fragment.bytes.length := List.length_pos_of_ne_nil empty
      have inside : offset + fragment.bytes.length ≤ total := by
        omega
      have stores := handler_stores fragment.fresh fits empty inside
      have lengths : (put s.rx offset fragment.bytes).length = s.rx.length :=
        length_put (Nat.le_trans inside fits)
      have front : (put s.rx offset fragment.bytes).take (offset + fragment.bytes.length) =
          s.rx.take offset ++ fragment.bytes := take_put (Nat.le_trans inside fits)
      by_cases last : offset + fragment.bytes.length = total
      · rw [if_pos last] at stores
        have nothing : joined rest = [] := List.eq_nil_of_length_eq_zero (by omega)
        have some_bytes : 0 < total := by
          omega
        have later := ih { s with rx := put s.rx offset fragment.bytes, rx_len := 0 }
          (offset + fragment.bytes.length) (lengths ▸ fits) (by omega) (.inr some_bytes)
        change ws_event_handler s (.data _) = _ at stores
        rw [fragmentEvents, handle_cons, stores]
        dsimp only
        rw [later]
        simp [joined_cons, nothing, empty, last]
      · rw [if_neg last] at stores
        have more : offset + fragment.bytes.length < total := by
          omega
        have later := ih { s with
            rx := put s.rx offset fragment.bytes
            rx_len := offset + fragment.bytes.length }
          (offset + fragment.bytes.length) (lengths ▸ fits) (by omega) (.inr more)
        have complete : joined rest ≠ [] ∧
            offset + fragment.bytes.length + (joined rest).length = total ↔
              joined (fragment :: rest) ≠ [] ∧
                offset + (joined (fragment :: rest)).length = total := by
          rw [joined_cons, List.length_append, ← Nat.add_assoc]
          constructor
          · rintro ⟨-, whole⟩
            exact ⟨fun nothing => empty (List.append_eq_nil_iff.mp nothing).1, whole⟩
          · rintro ⟨-, whole⟩
            refine ⟨fun nothing => last ?_, whole⟩
            rw [nothing] at whole
            exact whole
        change ws_event_handler s (.data _) = _ at stores
        rw [fragmentEvents, handle_cons, stores]
        dsimp only
        rw [later, List.nil_append, front, joined_cons, List.append_assoc]
        simp only [complete, joined_cons]

/-! ## The buffer has to grow -/

/-- Where `realloc` succeeds, the rest is done in the longer buffer. -/
theorem handler_grows (offset : Nat) (bytes : List UInt8)
    (byte : Nat → UInt8) (short : s.rx.length < total) :
    ∃ rx, rx.length = total ∧ ws_data_handler s ⟨0x02, total, offset, bytes, some byte⟩ =
      ws_data_handler { s with rx } ⟨0x02, total, offset, bytes, some byte⟩ := by
  have long : (s.rx ++ (List.range (total - s.rx.length)).map byte).length = total := by
    rw [List.length_append, List.length_map, List.length_range]
    omega
  refine ⟨_, long, ?_⟩
  simp only [ws_data_handler, realloc, ne_eq, not_true_eq_false, if_false, gt_iff_lt, short, if_true,
    Option.map_some, long, Nat.lt_irrefl]

theorem handler_fails {offset : Nat} {bytes : List UInt8} (short : s.rx.length < total) :
    ws_data_handler s ⟨0x02, total, offset, bytes, none⟩ =
      ({ s with rx_len := if offset = 0 then 0 else s.rx_len }, [.reallocFailed total]) := by
  simp [ws_data_handler, realloc, short]

/-- A message that is longer than the buffer: the first fragments are lost, and the others are
dispatched behind whatever stands where the lost ones belong. -/
theorem grown_outputs (fragments : List Fragment) :
    ∀ (s : Session) (offset : Nat), s.rx.length < total →
      offset + (joined fragments).length ≤ total → offset = 0 ∨ s.rx_len < total →
      ∃ front : List UInt8, (offset = 0 → lost fragments = [] → front = []) ∧
        (handle s (fragmentEvents 0x02 total offset fragments)).2 =
          (lost fragments).map (fun _ => .reallocFailed total) ++
            if joined (kept fragments) ≠ [] ∧ offset + (joined fragments).length = total then
              [.dispatch_frame (front ++ joined (kept fragments))]
            else [] := by
  induction fragments with
  | nil =>
    intro s offset _ _ _
    exact ⟨[], fun _ _ => rfl, by simp [lost, kept, joined, fragmentEvents, handle]⟩
  | cons fragment rest ih =>
    intro s offset short size behind
    cases outcome : fragment.fresh with
    | none =>
      have losing : lost (fragment :: rest) = fragment :: lost rest := by
        simp [lost, outcome]
      have keeping : kept (fragment :: rest) = kept rest := by
        simp [kept, outcome]
      rw [joined_cons, List.length_append] at size
      have step : ws_event_handler s (.data ⟨0x02, total, offset, fragment.bytes, none⟩) = _ :=
        handler_fails short
      have length : (if offset = 0 then 0 else s.rx_len) < total := by
        split <;> omega
      obtain ⟨front, -, later⟩ := ih { s with rx_len := if offset = 0 then 0 else s.rx_len }
        (offset + fragment.bytes.length) short (by omega) (.inr length)
      have someLost : lost (fragment :: rest) ≠ [] := by
        simp [losing]
      refine ⟨front, fun _ noneLost => absurd noneLost someLost, ?_⟩
      rw [fragmentEvents, outcome, handle_cons, step]
      dsimp only
      rw [later, losing, keeping, joined_cons, List.length_append, Nat.add_assoc]
      rfl
    | some byte =>
      have losing : lost (fragment :: rest) = [] := by
        simp [lost, outcome]
      have keeping : kept (fragment :: rest) = fragment :: rest := by
        simp [kept, outcome]
      obtain ⟨rx, long, grown⟩ :=
        handler_grows offset fragment.bytes byte short
      have same : handle s (fragmentEvents 0x02 total offset (fragment :: rest)) =
          handle { s with rx } (fragmentEvents 0x02 total offset (fragment :: rest)) := by
        rw [fragmentEvents, outcome, handle_cons, handle_cons]
        simp only [ws_event_handler, grown]
      refine ⟨rx.take offset, fun start _ => by rw [start, List.take_zero], ?_⟩
      rw [same, losing, keeping, stored_outputs (fragment :: rest) { s with rx } offset
        (Nat.le_of_eq long.symm) size behind]
      rfl

/-! ## Every message -/

theorem handle_ignored {op_code : Nat} (other : op_code ≠ 0x02) (fragments : List Fragment) :
    ∀ (s : Session) (offset : Nat),
      (handle s (fragmentEvents op_code total offset fragments)).2 = [] := by
  induction fragments with
  | nil =>
    intro s offset
    rfl
  | cons fragment rest ih =>
    intro s offset
    have step : ws_event_handler s (.data ⟨op_code, total, offset, fragment.bytes,
        fragment.fresh⟩) = (s, []) := if_pos other
    rw [fragmentEvents, handle_cons, step]
    exact ih s _

theorem Delivery.complete_iff (delivery : Delivery) :
    (joined delivery.fragments).length = delivery.message.length ↔
      joined delivery.fragments = delivery.message :=
  ⟨delivery.received.eq_of_length, congrArg List.length⟩

theorem kept_of_lost_nil {fragments : List Fragment} (noneLost : lost fragments = []) :
    kept fragments = fragments := by
  have whole : lost fragments ++ kept fragments = fragments := List.takeWhile_append_dropWhile
  rwa [noneLost, List.nil_append] at whole

theorem message_whole_iff (s : Session) (delivery : Delivery) :
    DispatchesWhole s (.message delivery) ↔ ¬ GrowsLate s (.message delivery) := by
  have size : 0 + (joined delivery.fragments).length ≤ delivery.message.length := by
    rw [Nat.zero_add]
    exact delivery.received.length_le
  by_cases binary : delivery.op_code = 0x02
  · by_cases short : s.rx.length < delivery.message.length
    · obtain ⟨front, starts, outs⟩ := grown_outputs delivery.fragments s 0 short size (.inl rfl)
      simp only [← binary, Nat.zero_add, delivery.complete_iff] at outs
      change outputs s (.message delivery) = _ at outs
      by_cases first : lost delivery.fragments = []
      · have all := kept_of_lost_nil first
        have fine : DispatchesWhole s (.message delivery) := by
          intro frame dispatched
          rw [outs, first, starts rfl first, all] at dispatched ⊢
          split at dispatched
          next complete =>
            simp only [List.map_nil, List.nil_append, List.mem_singleton,
              Output.dispatch_frame.injEq] at dispatched
            exact ⟨⟨delivery, rfl, dispatched.trans complete.2⟩, by simp [complete]⟩
          · simp at dispatched
        exact iff_of_true fine fun late => late.2.2.2.1 first
      · have failed : .reallocFailed delivery.message.length ∈ outputs s (.message delivery) := by
          rw [outs]
          obtain ⟨fragment, more, begins⟩ := List.exists_cons_of_ne_nil first
          simp [begins]
        by_cases late : joined (kept delivery.fragments) ≠ [] ∧
            joined delivery.fragments = delivery.message
        · have dispatched : .dispatch_frame (front ++ joined (kept delivery.fragments)) ∈
              outputs s (.message delivery) := by
            rw [outs, if_pos late]
            exact List.mem_append_right _ List.mem_cons_self
          exact iff_of_false (fun fine => (fine _ dispatched).2 _ failed)
            (not_not_intro ⟨binary, short, late.2, first, late.1⟩)
        · rw [if_neg late] at outs
          refine iff_of_true ?_ fun grows => late ⟨grows.2.2.2.2, grows.2.2.1⟩
          intro frame dispatched
          rw [outs] at dispatched
          simp at dispatched
    · have outs := stored_outputs delivery.fragments s 0 (Nat.not_lt.mp short) size (.inl rfl)
      simp only [← binary, Nat.zero_add, delivery.complete_iff, List.take_zero,
        List.nil_append] at outs
      change outputs s (.message delivery) = _ at outs
      refine iff_of_true ?_ fun grows => short grows.2.1
      intro frame dispatched
      rw [outs] at dispatched ⊢
      split at dispatched
      next complete =>
        simp only [List.mem_singleton, Output.dispatch_frame.injEq] at dispatched
        exact ⟨⟨delivery, rfl, dispatched.trans complete.2⟩, by simp [complete]⟩
      · simp at dispatched
  · have outs : outputs s (.message delivery) = [] :=
      handle_ignored binary delivery.fragments s 0
    refine iff_of_true ?_ fun grows => binary grows.1
    intro frame dispatched
    rw [outs] at dispatched
    cases dispatched

/-- A status event dispatches nothing. -/
theorem status_whole (s : Session) (event : StatusEvent) : DispatchesWhole s (.status event) := by
  intro frame dispatched
  cases event <;> simp [outputs, handle, Arrival.events, ws_event_handler] at dispatched

/-- Whatever the client delivers, in whatever fragments and with whatever allocations: the session
dispatches whole messages only, and none that an allocation failed for, exactly as long as no
message is stored in part. -/
theorem dispatches_whole_iff (s : Session) (arrivals : List Arrival) :
    Along receive DispatchesWhole s arrivals ↔
      Along receive (fun s arrival => ¬ GrowsLate s arrival) s arrivals := by
  refine Along.congr (fun _ => True) (fun _ _ _ _ => trivial) ?_ trivial
  intro s arrival _
  cases arrival with
  | message delivery => exact message_whole_iff s delivery
  | status event => exact iff_of_true (status_whole s event) id

/-- The first fragment is lost, the second one makes the buffer grow. -/
def lateMessage : Delivery where
  op_code := 0x02
  message := [0x02, 0x00, 0x01]
  fragments := [⟨[0x02, 0x00], none⟩, ⟨[0x01], some fun _ => 0xEE⟩]
  received := by decide

theorem stale_bytes_dispatched :
    .dispatch_frame [0xEE, 0xEE, 0x01] ∈ outputs {} (.message lateMessage) ∧
      ¬ ∀ s arrivals, Along receive DispatchesWhole s arrivals := by
  refine ⟨by decide, fun all => ?_⟩
  have whole := (all {} [.message lateMessage]).1
  have same := (whole [0xEE, 0xEE, 0x01] (by decide)).2 3
  exact same (by decide)

end HelixKit.Esp32.StreamReassembly
