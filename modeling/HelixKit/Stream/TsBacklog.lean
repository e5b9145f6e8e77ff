/-
Purpose: What waits on a TypeScript stream between two events waits for credit.
Trusted boundary: none
Main exports: waits_for_credit
-/
import HelixKit.Stream.HalfClose

namespace HelixKit.Stream

open HelixKit.Runs

/-- Nothing waits in the queue, or the window is used up. -/
def TsHandle.Settled (h : TsHandle) : Prop := h.stream.queue = [] ∨ h.stream.window = 0

/-- Every stream but one that is at work is settled. -/
def SettledBut (busy : Option Nat) (e : TsEndpoint) : Prop :=
  ∀ (i : Nat) h, e.objects[i]? = some h → some i ≠ busy → h.Settled

variable {busy : Option Nat} {e after : TsEndpoint} {r : Nat}

theorem SettledBut.all_settled (settled : SettledBut none e) {i : Nat} {h : TsHandle}
    (present : e.objects[i]? = some h) : h.Settled :=
  settled i h present (Option.some_ne_none i)

theorem SettledBut.tornFrom (settled : SettledBut busy e) (torn : TornFrom e after) :
    SettledBut busy after := by
  intro i h present idle
  rcases torn i with same | torn
  · exact settled i h (same ▸ present) idle
  · rw [torn, Option.map_eq_some_iff] at present
    obtain ⟨old, -, rfl⟩ := present
    exact .inl rfl

theorem SettledBut.modify {change : TsHandle → TsHandle} (settled : SettledBut busy e)
    (objects : after.objects = e.objects.modify r change)
    (keeps : some r ≠ busy → ∀ h, h.Settled → (change h).Settled) : SettledBut busy after := by
  intro i h present idle
  rw [objects, List.getElem?_modify] at present
  split at present
  next same =>
    subst same
    obtain ⟨old, before, rfl⟩ := Option.map_eq_some_iff.mp present
    exact keeps idle old (settled r old before idle)
  next => exact settled i h (by simpa using present) idle

theorem SettledBut.sendFrame (settled : SettledBut busy e) (sender : Option Nat)
    (type : FrameType) (id : Nat) (payload : Bytes) :
    SettledBut busy (e.sendFrame sender type id payload) := by
  have sending := sendFrame_step e sender type id payload
  generalize e.sendFrame sender type id payload = after at sending ⊢
  cases sending with
  | dropped _ => exact settled
  | failed _ _ torn => exact settled.tornFrom torn
  | sent _ _ _ objects =>
    cases sender with
    | none => exact fun i h present => settled i h (by rwa [objects] at present)
    | some r => exact settled.modify objects fun _ _ before => before

theorem SettledBut.flushLoop (settled : SettledBut (some r) e) (fuel : Nat) :
    SettledBut (some r) (TsEndpoint.flushLoop fuel e r) := by
  induction fuel generalizing e with
  | zero => exact settled
  | succ fuel ih =>
    unfold TsEndpoint.flushLoop
    split
    · exact settled
    split
    · exact settled
    split
    · exact settled
    · exact ih ((settled.sendFrame _ _ _ _).modify (flushRound_objects _ _ _ _).1
        fun idle => absurd rfl idle)

/-- A stream that is flushed is settled. -/
theorem SettledBut.flush (settled : SettledBut (some r) e) : SettledBut none (e.flush r) := by
  intro i h present _
  cases before : e.objects[r]? with
  | none =>
    simp only [TsEndpoint.flush, before] at present
    exact settled i h present fun same => by cases same; cases before.symm.trans present
  | some old =>
    by_cases same : i = r
    · obtain ⟨now, found, done⟩ := flush_done before
      rw [same] at present
      cases found.symm.trans present
      exact done
    · have others : SettledBut (some r) (e.flush r) := by
        simpa only [TsEndpoint.flush, before] using settled.flushLoop _
      exact others i h present (by simpa using same)

/-! ### The events -/

/-- A change of a stream may unsettle it. -/
theorem SettledBut.change (settled : SettledBut none e) {change : TsHandle → TsHandle}
    (objects : after.objects = e.objects.modify r change) : SettledBut (some r) after :=
  SettledBut.modify (fun _ _ present _ => settled.all_settled present) objects
    fun idle => absurd rfl idle

theorem SettledBut.create (settled : SettledBut none e) (id : Nat) (openMeta : Bytes) :
    SettledBut none (e.create id openMeta) := by
  intro i h present _
  simp only [TsEndpoint.create] at present
  rcases List.mem_append.mp (List.mem_of_getElem? present) with old | new
  · obtain ⟨j, before⟩ := List.getElem?_of_mem old
    exact settled.all_settled before
  · rw [List.mem_singleton.mp new]
    exact .inl rfl

theorem SettledBut.endSend (settled : SettledBut none e) (r : Nat) :
    SettledBut none (e.endSend r) := by
  unfold TsEndpoint.endSend
  split
  · exact settled
  split
  · exact settled
  next h _ _ =>
    have marked : SettledBut none (e.modify r TsHandle.closeSend) :=
      settled.modify rfl fun _ _ before => before
    exact marked.sendFrame _ _ _ _

theorem SettledBut.onData (settled : SettledBut none e) (r : Nat) (payload : Bytes) :
    SettledBut none (e.onData r payload) := by
  have counted (unacked : Nat) : SettledBut none
      (e.modify r fun h => { h with stream := { h.stream with unacked } }) :=
    settled.modify rfl fun _ _ before => before
  unfold TsEndpoint.onData
  split
  · exact settled
  split
  · exact settled
  dsimp only
  split
  · exact (counted 0).sendFrame _ _ _ _
  · exact counted _

theorem SettledBut.onCredit (settled : SettledBut none e) (r : Nat) (n : UInt32) :
    SettledBut none (e.onCredit r n) :=
  (settled.change rfl).flush

theorem SettledBut.dispatch (settled : SettledBut none e) (message : Bytes) :
    SettledBut none (e.dispatch message) := by
  unfold TsEndpoint.dispatch
  split
  · exact settled
  next type id payload _ =>
    dsimp only
    cases type with
    | fPing => exact settled.sendFrame _ _ _ _
    | fOpen => exact settled.create _ _
    | fEnd | fSignal | fPong | unknown => exact settled
    | _ =>
      cases e.session.streams.lookup id.toNat with
      | none => exact settled
      | some r => first
        | exact settled.onData r payload
        | exact settled.onCredit r _
        | exact settled.tornFrom (teardown_torn _ _ _)

theorem SettledBut.step (settled : SettledBut none e) (event : TsEvent) :
    SettledBut none (tsStep e event) := by
  cases event with
  | openStream openMeta =>
    simp only [tsStep, TsEndpoint.openStream]
    split
    · exact settled
    · apply SettledBut.sendFrame
      exact settled.create e.session.nextId openMeta
  | write r data =>
    simp only [tsStep, TsEndpoint.write]
    repeat' split
    · exact settled
    · exact settled
    · exact settled
    · exact (settled.change rfl).flush
  | endSend r => exact settled.endSend r
  | reset r reason =>
    simp only [tsStep, TsEndpoint.reset]
    split
    · exact settled
    split
    · exact settled.tornFrom (teardown_torn _ _ _)
    · exact (settled.sendFrame _ _ _ _).tornFrom (teardown_torn _ _ _)
  | close r =>
    simp only [tsStep, TsEndpoint.close]
    split
    · exact settled
    · exact (settled.endSend r).tornFrom (teardown_torn _ _ _)
  | signal r payload =>
    simp only [tsStep, TsEndpoint.signal]
    split
    · exact settled
    · exact settled.sendFrame _ _ _ _
  | closeSession | transportClosed => exact settled.tornFrom (closeWithErr_torn _ _)
  | ping => exact settled.sendFrame _ _ _ _
  | message data => exact settled.dispatch data

/-- A write that waits once an event has been handled waits for credit. -/
def WaitForCredit (e : TsEndpoint) : Prop :=
  ∀ h ∈ e.objects, h.stream.queue ≠ [] → h.stream.window = 0

theorem waits_for_credit (opts : TsOptions) (throws : Nat → Bool) (events : List TsEvent) :
    WaitForCredit (run tsStep (newTsEndpoint opts throws) events) := by
  intro h member waits
  obtain ⟨i, found⟩ := List.getElem?_of_mem member
  have settled : SettledBut none (run tsStep (newTsEndpoint opts throws) events) :=
    run_invariant (SettledBut none) (fun _ event before => before.step event)
      (by simp [SettledBut, newTsEndpoint])
  exact (settled.all_settled found).resolve_left waits

end HelixKit.Stream
