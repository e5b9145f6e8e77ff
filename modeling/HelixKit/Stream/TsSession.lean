/-
Purpose: The TypeScript session and its streams
  (`web/packages/protocol/src/stream/session.ts` and `stream.ts`): every call
  and every inbound message runs to its end before the next one starts.
Trusted boundary: none
-/
import Mathlib.Data.List.AList
import HelixKit.Stream.Frame

namespace HelixKit.Stream

/-- The errors of the TypeScript side. -/
inductive TsErr where
  | streamClosed
  | streamWriteClosed
  | streamReset (reason : Bytes)
  | peerReset
  | transport
deriving DecidableEq, Repr

/-- `PendingWrite`, with the number of the promise that `write` returned. -/
structure PendingWrite where
  data : Bytes
  offset : Nat := 0
  promise : Nat
deriving DecidableEq, Repr

/-- How a promise of `write` is settled. -/
inductive Settlement where
  | resolved
  | rejected (err : TsErr)
deriving DecidableEq, Repr

/-- `HelixStream`, less its callbacks. -/
structure TsStream where
  id : Nat
  openMeta : Bytes
  window : Nat
  queue : List PendingWrite := []
  unacked : Nat := 0
  sendClosed : Bool := false
  closed : Bool := false
deriving DecidableEq, Repr

/-- `HelixStreamSession`.  A stream is the number of its object. -/
structure TsSession where
  initialWindow : Nat
  maxChunk : Nat
  maxChunk_pos : 0 < maxChunk
  creditThreshold : Nat
  streams : AList (fun _ : Nat => Nat) := ∅
  nextId : Nat
  closed : Bool := false

/-- `SessionOptions`, less the callbacks and the ping interval. -/
structure TsOptions where
  client : Bool
  initialWindow : Nat := 262144
  maxChunk : Nat := 32768
  maxChunk_pos : 0 < maxChunk := by decide

def newTsSession (opts : TsOptions) : TsSession :=
  { initialWindow := opts.initialWindow
    maxChunk := opts.maxChunk
    maxChunk_pos := opts.maxChunk_pos
    creditThreshold := opts.initialWindow / 2
    nextId := if opts.client then 1 else 2 }

/-- A stream object and what was seen of it: the bytes its `write`s took, and
the frames it sent. -/
structure TsHandle where
  stream : TsStream
  accepted : Bytes := []
  emitted : List Frame := []
deriving DecidableEq, Repr

/-- One process: the session, its stream objects, the promises, and the
transport.  `throws n` says that the transport throws on its `n`-th frame. -/
structure TsEndpoint where
  session : TsSession
  objects : List TsHandle := []
  throws : Nat → Bool := fun _ => false
  sends : Nat := 0
  out : List Bytes := []
  promises : Nat := 0
  settled : List (Nat × Settlement) := []

/-- Change one stream object. -/
def TsEndpoint.modify (e : TsEndpoint) (r : Nat) (change : TsHandle → TsHandle) : TsEndpoint :=
  { e with objects := e.objects.modify r change }

def TsEndpoint.settle (e : TsEndpoint) (promise : Nat) (settlement : Settlement) : TsEndpoint :=
  { e with settled := e.settled ++ [(promise, settlement)] }

/-! ### Teardown and sending -/

/-- `teardown` of the fields of a stream. -/
def TsHandle.torn (h : TsHandle) : TsHandle :=
  { h with stream := { h.stream with closed := true, queue := [] } }

/-- `HelixStream.teardown`: reject what waits and drop it. -/
def TsEndpoint.teardown (err : Option TsErr) (e : TsEndpoint) (r : Nat) : TsEndpoint :=
  match e.objects[r]? with
  | none => e
  | some h =>
    if h.stream.closed then e
    else
      { e.modify r TsHandle.torn with
        settled :=
          e.settled ++
            h.stream.queue.map fun w => (w.promise, .rejected (err.getD .streamClosed)) }

/-- `closeWithErr`. -/
def TsEndpoint.closeWithErr (e : TsEndpoint) (err : Option TsErr) : TsEndpoint :=
  if e.session.closed then e
  else
    let refs := e.session.streams.entries.map fun entry => entry.2
    let marked := { e with session := { e.session with closed := true } }
    let torn := refs.foldl (TsEndpoint.teardown err) marked
    { torn with session := { torn.session with streams := ∅ } }

/-- `sendFrame`.  `sender` is the stream object that sends, if one does.  An
exception of the transport closes the session. -/
def TsEndpoint.sendFrame (e : TsEndpoint) (sender : Option Nat) (type : FrameType) (id : Nat)
    (payload : Bytes) : TsEndpoint :=
  if e.session.closed then e
  else
    let counted := { e with sends := e.sends + 1 }
    if e.throws e.sends then counted.closeWithErr (some .transport)
    else
      let frame : Frame := { type, streamID := UInt32.ofNat id, payload }
      { counted with
        out := e.out ++ [encodeFrame type frame.streamID payload]
        objects :=
          match sender with
          | none => e.objects
          | some r => e.objects.modify r fun h => { h with emitted := h.emitted ++ [frame] } }

def TsEndpoint.removeStream (e : TsEndpoint) (id : Nat) : TsEndpoint :=
  { e with session := { e.session with streams := e.session.streams.erase id } }

/-! ### The methods of a stream -/

/-- The bytes of a queue that are still to be sent. -/
def pendingBytes (queue : List PendingWrite) : Bytes :=
  queue.flatMap fun w => w.data.drop w.offset

/-- The end of one round of `flush`: `chunk` bytes of the first write are
gone.  A teardown during the send has emptied the queue. -/
def TsStream.flushed (st : TsStream) (chunk : Nat) : TsStream :=
  { st with
    window := st.window - chunk
    queue :=
      match st.queue with
      | [] => []
      | w :: rest =>
        if w.data.length ≤ w.offset + chunk then rest
        else { w with offset := w.offset + chunk } :: rest }

/-- The promise that the end of a round of `flush` resolves. -/
def TsStream.flushedPromise (st : TsStream) (chunk : Nat) : Option Nat :=
  match st.queue with
  | [] => none
  | w :: _ => if w.data.length ≤ w.offset + chunk then some w.promise else none

/-- The length of the next DATA payload. -/
def TsEndpoint.chunk (e : TsEndpoint) (st : TsStream) (w : PendingWrite) : Nat :=
  min (min (w.data.length - w.offset) st.window) e.session.maxChunk

/-- One round of `flush`, on the first write of the queue. -/
def TsEndpoint.flushRound (e : TsEndpoint) (r : Nat) (st : TsStream) (w : PendingWrite) :
    TsEndpoint :=
  let chunk := e.chunk st w
  let sent := e.sendFrame (some r) .fData st.id ((w.data.drop w.offset).take chunk)
  let after := sent.modify r fun h => { h with stream := h.stream.flushed chunk }
  match sent.objects[r]? >>= fun h => h.stream.flushedPromise chunk with
  | none => after
  | some promise => after.settle promise .resolved

/-- The loop of `flush`, for `fuel` rounds at most. -/
def TsEndpoint.flushLoop : Nat → TsEndpoint → Nat → TsEndpoint
  | 0, e, _ => e
  | fuel + 1, e, r =>
    match e.objects[r]? with
    | none => e
    | some h =>
      match h.stream.queue with
      | [] => e
      | w :: _ =>
        if h.stream.window = 0 then e
        else TsEndpoint.flushLoop fuel (e.flushRound r h.stream w) r

/-- The rounds that a queue takes at most: every round sends a byte or ends a
write. -/
def flushRounds (queue : List PendingWrite) : Nat :=
  (queue.map fun w => w.data.length - w.offset + 1).sum

/-- `flush`. -/
def TsEndpoint.flush (e : TsEndpoint) (r : Nat) : TsEndpoint :=
  match e.objects[r]? with
  | none => e
  | some h => TsEndpoint.flushLoop (flushRounds h.stream.queue) e r

/-- `write`. -/
def TsEndpoint.write (e : TsEndpoint) (r : Nat) (data : Bytes) : TsEndpoint :=
  let promise := e.promises
  let called := { e with promises := e.promises + 1 }
  match e.objects[r]? with
  | none => e
  | some h =>
    if h.stream.closed then called.settle promise (.rejected .streamClosed)
    else if h.stream.sendClosed then called.settle promise (.rejected .streamWriteClosed)
    else
      (called.modify r fun h =>
        { h with
          stream := { h.stream with queue := h.stream.queue ++ [{ data := data, promise }] }
          accepted := h.accepted ++ data }).flush r

def TsHandle.closeSend (h : TsHandle) : TsHandle :=
  { h with stream := { h.stream with sendClosed := true } }

/-- `end`. -/
def TsEndpoint.endSend (e : TsEndpoint) (r : Nat) : TsEndpoint :=
  match e.objects[r]? with
  | none => e
  | some h =>
    if h.stream.sendClosed ∨ h.stream.closed then e
    else
      (e.modify r TsHandle.closeSend).sendFrame (some r) .fEnd h.stream.id []

/-- `reset`. -/
def TsEndpoint.reset (e : TsEndpoint) (r : Nat) (reason : Bytes) : TsEndpoint :=
  match e.objects[r]? with
  | none => e
  | some h =>
    let announced :=
      if h.stream.closed then e else e.sendFrame (some r) .fReset h.stream.id reason
    (announced.teardown (some (.streamReset reason)) r).removeStream h.stream.id

/-- `close`. -/
def TsEndpoint.close (e : TsEndpoint) (r : Nat) : TsEndpoint :=
  match e.objects[r]? with
  | none => e
  | some h => ((e.endSend r).teardown none r).removeStream h.stream.id

/-- `signal`. -/
def TsEndpoint.signal (e : TsEndpoint) (r : Nat) (payload : Bytes) : TsEndpoint :=
  match e.objects[r]? with
  | none => e
  | some h => e.sendFrame (some r) .fSignal h.stream.id payload

/-- `_onData`. -/
def TsEndpoint.onData (e : TsEndpoint) (r : Nat) (payload : Bytes) : TsEndpoint :=
  match e.objects[r]? with
  | none => e
  | some h =>
    if h.stream.closed then e
    else
      let unacked := h.stream.unacked + payload.length
      let count (unacked : Nat) : TsEndpoint :=
        e.modify r fun h => { h with stream := { h.stream with unacked } }
      if e.session.creditThreshold ≤ unacked then
        (count 0).sendFrame (some r) .fCredit h.stream.id
          (encodeCredit (UInt32.ofNat unacked))
      else count unacked

/-- `_onCredit`. -/
def TsEndpoint.onCredit (e : TsEndpoint) (r : Nat) (n : UInt32) : TsEndpoint :=
  (e.modify r fun h =>
    { h with stream := { h.stream with window := h.stream.window + n.toNat } }).flush r

/-! ### The session -/

/-- Make a stream object and register it under its id. -/
def TsEndpoint.create (e : TsEndpoint) (id : Nat) (openMeta : Bytes) : TsEndpoint :=
  { e with
    session := { e.session with streams := e.session.streams.insert id e.objects.length }
    objects :=
      e.objects ++ [{ stream := { id, openMeta, window := e.session.initialWindow } }] }

/-- `open`; it throws on a closed session. -/
def TsEndpoint.openStream (e : TsEndpoint) (openMeta : Bytes) : TsEndpoint :=
  if e.session.closed then e
  else
    let id := e.session.nextId
    let created := e.create id openMeta
    { created with session := { created.session with nextId := id + 2 } }.sendFrame
      (some e.objects.length) .fOpen id openMeta

/-- `dispatch`. -/
def TsEndpoint.dispatch (e : TsEndpoint) (message : Bytes) : TsEndpoint :=
  match decodeFrame message with
  | none => e
  | some { type, streamID, payload } =>
    let id := streamID.toNat
    let forward (method : Nat → TsEndpoint) : TsEndpoint :=
      match e.session.streams.lookup id with
      | none => e
      | some r => method r
    match type with
    | .fPing => e.sendFrame none .fPong 0 []
    | .fOpen => e.create id payload
    | .fData => forward fun r => e.onData r payload
    | .fReset => forward fun r => (e.teardown (some .peerReset) r).removeStream id
    | .fCredit => forward fun r => e.onCredit r (decodeCredit payload)
    | .fEnd | .fSignal | .fPong | .unknown _ => e

/-- The calls of an application, the timer, and what the transport reports. -/
inductive TsEvent where
  | openStream (openMeta : Bytes)
  | write (r : Nat) (data : Bytes)
  | endSend (r : Nat)
  | reset (r : Nat) (reason : Bytes)
  | close (r : Nat)
  | signal (r : Nat) (payload : Bytes)
  | closeSession
  | ping
  | message (data : Bytes)
  | transportClosed (err : Option TsErr)
deriving DecidableEq, Repr

def tsStep (e : TsEndpoint) : TsEvent → TsEndpoint
  | .openStream openMeta => e.openStream openMeta
  | .write r data => e.write r data
  | .endSend r => e.endSend r
  | .reset r reason => e.reset r reason
  | .close r => e.close r
  | .signal r payload => e.signal r payload
  | .closeSession => e.closeWithErr none
  | .ping => e.sendFrame none .fPing 0 []
  | .message data => e.dispatch data
  | .transportClosed err => e.closeWithErr err

/-! ### What teardown and sending do to the streams -/

/-- Every stream object is as before, or torn down. -/
def TornFrom (e after : TsEndpoint) : Prop :=
  ∀ i : Nat, after.objects[i]? = e.objects[i]? ∨
    after.objects[i]? = e.objects[i]?.map TsHandle.torn

/-- An entry of a list with one entry changed. -/
theorem getElem?_modify_cases {α : Type*} {xs : List α} {change : α → α} {r i : Nat} {x : α}
    (present : (xs.modify r change)[i]? = some x) :
    (∃ old, xs[r]? = some old ∧ x = change old) ∨ i ≠ r ∧ xs[i]? = some x := by
  rw [List.getElem?_modify] at present
  split at present
  next same =>
    subst same
    obtain ⟨old, before, rfl⟩ := Option.map_eq_some_iff.mp present
    exact Or.inl ⟨old, before, rfl⟩
  next other =>
    exact Or.inr ⟨fun same => other same.symm, by simpa using present⟩

theorem TornFrom.refl (e : TsEndpoint) : TornFrom e e :=
  fun _ => Or.inl rfl

theorem TornFrom.trans {first second third : TsEndpoint} (earlier : TornFrom first second)
    (later : TornFrom second third) : TornFrom first third := by
  intro i
  rcases later i with same | torn
  · rw [same]
    exact earlier i
  · right
    rw [torn]
    rcases earlier i with same | twice
    · rw [same]
    · rw [twice, Option.map_map]
      rfl

theorem teardown_torn (err : Option TsErr) (e : TsEndpoint) (r : Nat) :
    TornFrom e (e.teardown err r) := by
  intro i
  unfold TsEndpoint.teardown
  split
  · exact Or.inl rfl
  split
  · exact Or.inl rfl
  simp only [TsEndpoint.modify, List.getElem?_modify]
  split
  · right
    simp
  · left
    simp

@[simp] theorem teardown_session (err : Option TsErr) (e : TsEndpoint) (r : Nat) :
    (e.teardown err r).session = e.session := by
  unfold TsEndpoint.teardown
  split
  · rfl
  · split <;> rfl

theorem teardowns_torn (err : Option TsErr) (refs : List Nat) (e : TsEndpoint) :
    TornFrom e (refs.foldl (TsEndpoint.teardown err) e) := by
  induction refs generalizing e with
  | nil => exact TornFrom.refl e
  | cons r rest ih => exact (teardown_torn err e r).trans (ih _)

theorem closeWithErr_torn (e : TsEndpoint) (err : Option TsErr) :
    TornFrom e (e.closeWithErr err) := by
  unfold TsEndpoint.closeWithErr
  split
  · exact TornFrom.refl e
  · exact teardowns_torn err _ _

theorem teardowns_session (err : Option TsErr) (refs : List Nat) (e : TsEndpoint) :
    (refs.foldl (TsEndpoint.teardown err) e).session = e.session := by
  induction refs generalizing e with
  | nil => rfl
  | cons r rest ih => exact (ih _).trans (teardown_session err e r)

@[simp] theorem closeWithErr_closed (e : TsEndpoint) (err : Option TsErr) :
    (e.closeWithErr err).session.closed = true := by
  unfold TsEndpoint.closeWithErr
  split
  · assumption
  · simp only [teardowns_session]

/-- The objects after `sender` has sent a frame. -/
def logFrame (sender : Option Nat) (frame : Frame) (objects : List TsHandle) : List TsHandle :=
  match sender with
  | none => objects
  | some r => objects.modify r fun h => { h with emitted := h.emitted ++ [frame] }

/-- What sending a frame does: nothing on a closed session, an end of the
session if the transport throws, and else the frame. -/
inductive SendStep (e : TsEndpoint) (sender : Option Nat) (frame : Frame) : TsEndpoint → Prop where
  | dropped (closed : e.session.closed = true) : SendStep e sender frame e
  | failed (after : TsEndpoint) (closed : after.session.closed = true)
      (torn : TornFrom e after) : SendStep e sender frame after
  | sent (after : TsEndpoint) (opened : e.session.closed = false)
      (session : after.session = e.session)
      (objects : after.objects = logFrame sender frame e.objects) :
      SendStep e sender frame after

theorem sendFrame_step (e : TsEndpoint) (sender : Option Nat) (type : FrameType) (id : Nat)
    (payload : Bytes) :
    SendStep e sender { type, streamID := UInt32.ofNat id, payload }
      (e.sendFrame sender type id payload) := by
  unfold TsEndpoint.sendFrame
  split
  · exact .dropped (by assumption)
  rename_i opened
  dsimp only
  split
  · exact .failed _ (closeWithErr_closed _ _) (closeWithErr_torn _ _)
  · exact .sent _ (by simpa using opened) rfl rfl

/-! ### The rounds of `flush` -/

theorem flushRound_objects (e : TsEndpoint) (r : Nat) (st : TsStream) (w : PendingWrite) :
    (e.flushRound r st w).objects =
        (e.sendFrame (some r) .fData st.id
          ((w.data.drop w.offset).take (e.chunk st w))).objects.modify r
            (fun h => { h with stream := h.stream.flushed (e.chunk st w) }) ∧
      (e.flushRound r st w).session =
        (e.sendFrame (some r) .fData st.id
          ((w.data.drop w.offset).take (e.chunk st w))).session := by
  simp only [TsEndpoint.flushRound]
  split <;> exact ⟨rfl, rfl⟩

/-- The stream that a frame was sent for is as before, but for its log, or torn
down. -/
theorem SendStep.sender {e after : TsEndpoint} {r : Nat} {frame : Frame} {h : TsHandle}
    (sending : SendStep e (some r) frame after) (present : e.objects[r]? = some h) :
    ∃ now, after.objects[r]? = some now ∧ (now.stream = h.stream ∨ now.stream = h.torn.stream) := by
  cases sending with
  | dropped _ => exact ⟨h, present, Or.inl rfl⟩
  | failed _ _ torn =>
    rcases torn r with same | torn
    · exact ⟨h, same.trans present, Or.inl rfl⟩
    · exact ⟨h.torn, by rw [torn, present]; rfl, Or.inr rfl⟩
  | sent _ _ _ objects =>
    refine ⟨{ h with emitted := h.emitted ++ [frame] }, ?_, Or.inl rfl⟩
    rw [objects, logFrame, List.getElem?_modify_eq, present]
    rfl

theorem TsEndpoint.chunk_pos {e : TsEndpoint} {st : TsStream} {w : PendingWrite}
    (window : st.window ≠ 0) (more : w.offset < w.data.length) : 0 < e.chunk st w := by
  have limit := e.session.maxChunk_pos
  unfold TsEndpoint.chunk
  omega

/-- Every round sends a byte or ends a write. -/
theorem flushRounds_flushed {st : TsStream} {w : PendingWrite} {rest : List PendingWrite}
    (queue : st.queue = w :: rest) {chunk : Nat}
    (progress : w.offset < w.data.length → 0 < chunk) :
    flushRounds (st.flushed chunk).queue < flushRounds st.queue := by
  simp only [TsStream.flushed, queue]
  split
  · simp only [flushRounds, List.map_cons, List.sum_cons]
    omega
  next more =>
    have step := progress (by omega)
    simp only [flushRounds, List.map_cons, List.sum_cons]
    omega

theorem flushRound_rounds {e : TsEndpoint} {r : Nat} {h : TsHandle} {w : PendingWrite}
    {rest : List PendingWrite} (present : e.objects[r]? = some h)
    (queue : h.stream.queue = w :: rest) (window : h.stream.window ≠ 0) :
    ∃ now, (e.flushRound r h.stream w).objects[r]? = some now ∧
      flushRounds now.stream.queue < flushRounds h.stream.queue := by
  have sending :=
    sendFrame_step e (some r) .fData h.stream.id
      ((w.data.drop w.offset).take (e.chunk h.stream w))
  obtain ⟨sent, found, kept⟩ := sending.sender present
  refine ⟨{ sent with stream := sent.stream.flushed (e.chunk h.stream w) }, ?_, ?_⟩
  · rw [(flushRound_objects e r h.stream w).1, List.getElem?_modify_eq, found]
    rfl
  · rcases kept with same | torn
    · simp only [same]
      exact flushRounds_flushed queue fun more => TsEndpoint.chunk_pos window more
    · simp only [torn, queue, TsHandle.torn, TsStream.flushed, flushRounds, List.map_nil,
        List.sum_nil, List.map_cons, List.sum_cons]
      omega

theorem flushLoop_done {fuel : Nat} {e : TsEndpoint} {r : Nat} {h : TsHandle}
    (present : e.objects[r]? = some h) (enough : flushRounds h.stream.queue ≤ fuel) :
    ∃ now, (TsEndpoint.flushLoop fuel e r).objects[r]? = some now ∧
      (now.stream.queue = [] ∨ now.stream.window = 0) := by
  induction fuel generalizing e h with
  | zero =>
    refine ⟨h, present, Or.inl ?_⟩
    cases queue : h.stream.queue with
    | nil => rfl
    | cons w rest => simp [flushRounds, queue] at enough
  | succ fuel ih =>
    simp only [TsEndpoint.flushLoop, present]
    split
    next queue =>
      exact ⟨h, present, Or.inl queue⟩
    rename_i w rest queue
    split
    next shut =>
      exact ⟨h, present, Or.inr shut⟩
    rename_i window
    obtain ⟨now, found, fewer⟩ := flushRound_rounds present queue window
    exact ih found (by omega)

/-- `flush` goes on until the queue is empty or the window used up. -/
theorem flush_done {e : TsEndpoint} {r : Nat} {h : TsHandle} (present : e.objects[r]? = some h) :
    ∃ now, (e.flush r).objects[r]? = some now ∧
      (now.stream.queue = [] ∨ now.stream.window = 0) := by
  simp only [TsEndpoint.flush, present]
  exact flushLoop_done present (Nat.le_refl _)

end HelixKit.Stream
