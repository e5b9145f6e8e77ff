/-
Purpose: The slots of the C endpoint are recycled.  A call of
  `helix_stream_write` keeps to its own stream as long as no OPEN takes the slot
  under it.
Trusted boundary: none
Main exports: own_bytes_only
-/
import HelixKit.Stream.Embedded

namespace HelixKit.Stream.Embedded

open HelixKit.Runs

/-! ### What one step does -/

/-- What a frame does to a session, as far as its streams and its log show. -/
inductive FrameStep (s : Session) (message : Bytes) : Session → Prop where
  | touched (i : Fin maxStreams) (slot : Slot) (more : List Sent)
      (sameOpens : slot.opens = (s.slots i).opens) (sameID : slot.id = (s.slots i).id)
      (unowned : ∀ x ∈ more, x.caller = none) :
      FrameStep s message { s.setSlot i slot with sent := s.sent ++ more }
  | opened (i : Fin maxStreams) (frame : Frame) (decoded : decodeFrame message = some frame)
      (isOpen : frame.type = .fOpen) (free : freeSlot s = some i) :
      FrameStep s message (s.setSlot i ((s.slots i).opened frame.streamID))

theorem setSlot_self (s : Session) (i : Fin maxStreams) : s.setSlot i (s.slots i) = s := by
  simp only [Session.setSlot, Function.update_eq_self]

/-- A frame sent by the websocket task adds to the log only. -/
theorem sendFrame_unowned (s : Session) (delivered : Bool) (type : FrameType) (id : UInt32)
    (payload : Bytes) :
    ∃ more, (∀ x ∈ more, x.caller = none) ∧
      (sendFrame s delivered none type id payload).1 = { s with sent := s.sent ++ more } := by
  unfold sendFrame
  split
  · exact ⟨[], by simp, by simp⟩
  split
  · exact ⟨[_], by simp, rfl⟩
  · exact ⟨[], by simp, by simp⟩

theorem FrameStep.quiet (s : Session) (message : Bytes) : FrameStep s message s := by
  have same : FrameStep s message { s.setSlot 0 (s.slots 0) with sent := s.sent ++ [] } :=
    .touched 0 (s.slots 0) [] rfl rfl (by simp)
  rw [setSlot_self] at same
  simpa using same

theorem FrameStep.replied (s : Session) (message : Bytes) (delivered : Bool) (type : FrameType)
    (id : UInt32) (payload : Bytes) :
    FrameStep s message (sendFrame s delivered none type id payload).1 := by
  obtain ⟨more, unowned, sent⟩ := sendFrame_unowned s delivered type id payload
  have touched : FrameStep s message { s.setSlot 0 (s.slots 0) with sent := s.sent ++ more } :=
    .touched 0 (s.slots 0) more rfl rfl unowned
  rw [setSlot_self] at touched
  rw [sent]
  exact touched

theorem FrameStep.silent (s : Session) (message : Bytes) (i : Fin maxStreams) (slot : Slot)
    (sameOpens : slot.opens = (s.slots i).opens) (sameID : slot.id = (s.slots i).id) :
    FrameStep s message (s.setSlot i slot) := by
  have touched : FrameStep s message { s.setSlot i slot with sent := s.sent ++ [] } :=
    .touched i slot [] sameOpens sameID (by simp)
  simpa [Session.setSlot] using touched

theorem FrameStep.consumed (s : Session) (message : Bytes) (delivered : Bool)
    (i : Fin maxStreams) (id : UInt32) (received : Nat) :
    FrameStep s message (consume s delivered i id received) := by
  simp only [consume]
  split
  · obtain ⟨more, unowned, sent⟩ :=
      sendFrame_unowned (s.setSlot i { s.slots i with unacked := 0 }) delivered .fCredit id
        (encodeCredit ((s.slots i).unacked + Int32.ofNat received).toUInt32)
    rw [sent]
    exact FrameStep.touched i { s.slots i with unacked := 0 } more rfl rfl unowned
  · exact FrameStep.silent s message i _ rfl rfl

theorem dispatchFrame_step (s : Session) (delivered : Bool) (message : Bytes) :
    FrameStep s message (dispatchFrame s delivered message) := by
  cases decoded : decodeFrame message with
  | none =>
    simp only [dispatchFrame, decoded]
    exact FrameStep.quiet s message
  | some frame =>
    obtain ⟨type, id, payload⟩ := frame
    simp only [dispatchFrame, decoded]
    cases type with
    | fPing => exact FrameStep.replied s message delivered _ _ _
    | fOpen =>
      cases free : freeSlot s with
      | none => exact FrameStep.replied s message delivered _ _ _
      | some i => exact FrameStep.opened i _ decoded rfl free
    | fData =>
      cases findStream s id with
      | none => exact FrameStep.quiet s message
      | some i => exact FrameStep.consumed s message delivered i id _
    | fEnd | fReset =>
      cases findStream s id with
      | none => exact FrameStep.quiet s message
      | some i => exact FrameStep.silent s message i _ rfl rfl
    | fCredit =>
      cases findStream s id with
      | none => exact FrameStep.quiet s message
      | some i =>
        apply FrameStep.silent
        all_goals
          unfold Slot.credited
          split <;> rfl
    | fPong | fSignal | unknown => exact FrameStep.quiet s message

/-- The calls between the head of the loop and its end. -/
def WriteCall.InLoop (call : WriteCall) : Prop :=
  match call.pc with
  | .entry | .loopHead | .returned _ => False
  | _ => True

/-- The calls that may still send. -/
def WriteCall.Unfinished (call : WriteCall) : Prop :=
  call.sent < call.data.length ∧ ∀ result, call.pc ≠ .returned result

/-- What one statement of a call does: it goes on, or it sends, or it charges
the window. -/
inductive WriteStep (s : Session) (call : WriteCall) : Session → WriteCall → Prop where
  | goes (pc : WritePc) (running : ∀ result, call.pc ≠ .returned result)
      (enters : WriteCall.InLoop { call with pc } → call.InLoop ∨ call.sent < call.data.length) :
      WriteStep s call s { call with pc }
  | stays (returned : ¬ call.Unfinished) : WriteStep s call s call
  | sends (chunk : Nat) (at_ : call.pc = .sending chunk) :
      WriteStep s call
        { s with
          sent :=
            s.sent ++
              [{ caller := call.stream
                 frame :=
                  { type := .fData, streamID := (s.slots call.stream.slot).id,
                    payload := (call.data.drop call.sent).take chunk } }] }
        { call with pc := .charging chunk }
  | charges (chunk : Nat) (at_ : call.pc = .charging chunk) :
      WriteStep s call
        { s.setSlot call.stream.slot
            { s.slots call.stream.slot with
              window := (s.slots call.stream.slot).window - Int32.ofNat chunk } with
          charges :=
            s.charges ++
              [{ caller := call.stream, charged := s.occupant call.stream.slot,
                 bytes := chunk }] }
        { call with sent := call.sent + chunk, pc := .loopHead }

theorem WriteCall.advance_step (call : WriteCall) (s : Session) (delivered : Bool) :
    WriteStep s call (call.advance s delivered).1 (call.advance s delivered).2 := by
  obtain ⟨stream, data, sent, pc⟩ := call
  cases pc with
  | entry =>
    simp only [WriteCall.advance]
    split <;> exact WriteStep.goes _ (by simp) (by simp [WriteCall.InLoop])
  | loopHead =>
    simp only [WriteCall.advance]
    split
    · exact WriteStep.goes _ (by simp) (by simp [WriteCall.InLoop])
    · have more : sent < data.length := by omega
      split <;> exact WriteStep.goes _ (by simp) fun _ => Or.inr more
  | waiting | ready =>
    simp only [WriteCall.advance]
    split <;> exact WriteStep.goes _ (by simp) fun _ => Or.inl trivial
  | cutting => exact WriteStep.goes _ (by simp) fun _ => Or.inl trivial
  | sending chunk =>
    simp only [WriteCall.advance, sendFrame]
    by_cases closed : s.closed
    · rw [if_pos closed]
      exact WriteStep.goes _ (by simp) fun _ => Or.inl trivial
    · rw [if_neg closed]
      cases delivered with
      | true => exact @WriteStep.sends s ⟨stream, data, sent, .sending chunk⟩ chunk rfl
      | false => exact WriteStep.goes _ (by simp) fun _ => Or.inl trivial
  | charging chunk => exact WriteStep.charges chunk rfl
  | returned result =>
    apply WriteStep.stays
    rintro ⟨-, going⟩
    exact going result rfl

/-! ### Calls and their streams -/

/-- Every DATA frame of a write call carries the id of the call's stream, and
every byte of it was charged to that stream's window. -/
def OwnBytesOnly (s : Session) : Prop :=
  (∀ x ∈ s.sent, ∀ h, x.caller = some h → x.frame.streamID = h.id) ∧
    ∀ charge ∈ s.charges, charge.charged = charge.caller

/-- An OPEN takes no slot of a call that may still send, and a call is made only
on the stream that its slot then belongs to. -/
def LeavesCallsAlone (s : Session) : Op → Prop
  | .frame message _ =>
    ∀ frame i, decodeFrame message = some frame → frame.type = .fOpen →
      freeSlot s = some i →
        ∀ call ∈ s.calls, call.Unfinished → call.stream.slot ≠ i
  | .write stream data => data ≠ [] → s.occupant stream.slot = stream
  | _ => True

/-- What holds in every state: besides the log, that calls within the loop have
data left, and that the slot of a call that may still send is its stream's. -/
structure CallsOwn (s : Session) : Prop where
  ownBytes : OwnBytesOnly s
  inLoop : ∀ call ∈ s.calls, call.InLoop → call.sent < call.data.length
  ownSlot : ∀ call ∈ s.calls, call.Unfinished → s.occupant call.stream.slot = call.stream

theorem callsOwn_start : CallsOwn {} where
  ownBytes := by simp [OwnBytesOnly]
  inLoop := by simp
  ownSlot := by simp

@[simp] theorem setSlot_slots (s : Session) (i j : Fin maxStreams) (slot : Slot) :
    (s.setSlot i slot).slots j = if j = i then slot else s.slots j := by
  simp only [Session.setSlot, Function.update_apply]

/-- Changing a slot but not its stream keeps every occupant. -/
theorem occupant_setSlot {s : Session} {i : Fin maxStreams} (slot : Slot)
    (sameOpens : slot.opens = (s.slots i).opens) (sameID : slot.id = (s.slots i).id)
    (j : Fin maxStreams) : (s.setSlot i slot).occupant j = s.occupant j := by
  by_cases same : j = i
  · subst same
    simp [Session.occupant, sameOpens, sameID]
  · simp [Session.occupant, same]

theorem CallsOwn.frame {s after : Session} {message : Bytes} (own : CallsOwn s)
    (delivered : Bool) (alone : LeavesCallsAlone s (.frame message delivered))
    (effect : FrameStep s message after) : CallsOwn after := by
  cases effect with
  | touched i slot more sameOpens sameID unowned =>
    refine ⟨⟨?_, own.ownBytes.2⟩, own.inLoop, ?_⟩
    · intro x sent h called
      rcases List.mem_append.mp sent with before | now
      · exact own.ownBytes.1 x before h called
      · rw [unowned x now] at called
        cases called
    · intro call made unfinished
      exact (occupant_setSlot slot sameOpens sameID _).trans (own.ownSlot call made unfinished)
  | opened i frame decoded isOpen free =>
    refine ⟨own.ownBytes, own.inLoop, ?_⟩
    intro call made unfinished
    have apart := alone frame i decoded isOpen free call made unfinished
    rw [← own.ownSlot call made unfinished]
    simp [Session.occupant, apart]

/-- Replacing one call keeps what holds of every call, if it holds of the new
one. -/
theorem forall_mem_set {α : Type*} {P : α → Prop} {xs : List α} {n : Nat} {x : α}
    (each : ∀ y ∈ xs, P y) (new : P x) : ∀ y ∈ xs.set n x, P y := by
  intro y present
  rcases List.mem_or_eq_of_mem_set present with old | rfl
  · exact each y old
  · exact new

theorem WriteCall.Unfinished.of_inLoop {call : WriteCall} (inLoop : call.InLoop)
    (more : call.sent < call.data.length) : call.Unfinished := by
  refine ⟨more, ?_⟩
  intro result returned
  simp [WriteCall.InLoop, returned] at inLoop

theorem CallsOwn.advance {s after : Session} {call next : WriteCall} {n : Nat}
    (own : CallsOwn s) (made : call ∈ s.calls) (effect : WriteStep s call after next) :
    CallsOwn { after with calls := s.calls.set n next } := by
  cases effect with
  | goes pc running enters =>
    refine ⟨own.ownBytes, ?_, ?_⟩
    · apply forall_mem_set own.inLoop
      intro inLoop
      rcases enters inLoop with before | more
      · exact own.inLoop call made before
      · exact more
    · apply forall_mem_set own.ownSlot
      intro unfinished
      exact own.ownSlot call made ⟨unfinished.1, running⟩
  | stays returned =>
    refine ⟨own.ownBytes, forall_mem_set own.inLoop (own.inLoop call made), ?_⟩
    exact forall_mem_set own.ownSlot (own.ownSlot call made)
  | sends chunk at_ =>
    have inLoop : call.InLoop := by simp [WriteCall.InLoop, at_]
    have more := own.inLoop call made inLoop
    have slot := own.ownSlot call made (.of_inLoop inLoop more)
    refine ⟨⟨?_, own.ownBytes.2⟩, ?_, ?_⟩
    · intro x sent h called
      rcases List.mem_append.mp sent with before | now
      · exact own.ownBytes.1 x before h called
      · rw [List.mem_singleton.mp now] at called ⊢
        cases called
        exact congrArg Handle.id slot
    · exact forall_mem_set own.inLoop fun _ => more
    · exact forall_mem_set own.ownSlot fun _ => slot
  | charges chunk at_ =>
    have inLoop : call.InLoop := by simp [WriteCall.InLoop, at_]
    have slot := own.ownSlot call made (.of_inLoop inLoop (own.inLoop call made inLoop))
    have kept :=
      occupant_setSlot
        { s.slots call.stream.slot with
          window := (s.slots call.stream.slot).window - Int32.ofNat chunk }
        (rfl : _ = (s.slots call.stream.slot).opens) rfl
    refine ⟨⟨own.ownBytes.1, ?_⟩, ?_, ?_⟩
    · intro charge present
      rcases List.mem_append.mp present with before | now
      · exact own.ownBytes.2 charge before
      · rw [List.mem_singleton.mp now]
        exact slot
    · exact forall_mem_set own.inLoop (by simp [WriteCall.InLoop])
    · apply forall_mem_set
      · intro other present unfinished
        exact (kept _).trans (own.ownSlot other present unfinished)
      · intro _
        exact (kept _).trans slot

theorem CallsOwn.step {s : Session} {op : Op} (own : CallsOwn s)
    (alone : LeavesCallsAlone s op) : CallsOwn (step s op) := by
  cases op with
  | frame message delivered =>
    exact own.frame delivered alone (dispatchFrame_step s delivered message)
  | write stream data =>
    refine ⟨own.ownBytes, ?_, ?_⟩
    · intro call made inLoop
      rcases List.mem_append.mp made with before | now
      · exact own.inLoop call before inLoop
      · rw [List.mem_singleton.mp now] at inLoop
        cases inLoop
    · intro call made unfinished
      rcases List.mem_append.mp made with before | now
      · exact own.ownSlot call before unfinished
      · rw [List.mem_singleton.mp now] at unfinished ⊢
        apply alone
        rintro rfl
        exact absurd unfinished.1 (by simp)
  | advance n delivered =>
    cases found : s.calls[n]? with
    | none => simpa [Embedded.step, found] using own
    | some call =>
      simp only [Embedded.step, found]
      exact own.advance (List.mem_of_getElem? found) (call.advance_step s delivered)
  | closed | teardownAll => exact ⟨own.ownBytes, own.inLoop, own.ownSlot⟩

/-- In every run in which OPEN leaves the slots of unfinished calls alone and
calls are made on live handles, a call's bytes go out under its own stream's id
and are charged to its own stream's window. -/
theorem own_bytes_only {ops : List Op} (alone : Along step LeavesCallsAlone {} ops) :
    OwnBytesOnly (run step {} ops) := by
  have own := alone.invariant CallsOwn (fun _ _ before now => before.step now) callsOwn_start
  exact own.ownBytes

/-- The stream that the first OPEN makes, with id 1. -/
def firstStream : Handle := { slot := 0, opens := 1, id := 1 }

/-- A call that sends its one byte and returns. -/
theorem own_bytes_only_one :
    let ops :=
      [openFrame 1, .write firstStream [0x58]] ++ List.replicate 7 (.advance 0 true)
    (run step {} ops).sent.length = 1 ∧ OwnBytesOnly (run step {} ops) := by
  refine ⟨by decide, own_bytes_only ?_⟩
  refine ⟨?_, fun _ => by decide, trivial, trivial, trivial, trivial, trivial, trivial,
    trivial, trivial⟩
  intro frame i _ _ _ call made
  cases made

/-- The peer resets stream 1 and opens stream 3 under a call on stream 1: its
byte goes out on stream 3. -/
theorem own_bytes_only_fails :
    ¬ OwnBytesOnly
        (run step {}
          ([openFrame 1, .write firstStream [0x58]] ++ List.replicate 3 (.advance 0 true) ++
            [.frame (encodeFrame .fReset 1 []) true, openFrame 3] ++
            List.replicate 3 (.advance 0 true))) := by
  rintro ⟨frames, -⟩
  have own :=
    frames
      { caller := some firstStream, frame := { type := .fData, streamID := 3, payload := [0x58] } }
      (by decide) firstStream rfl
  exact absurd own (by decide)

end HelixKit.Stream.Embedded
