/-
Purpose: END on a TypeScript stream.  `end` sends it at once, so the stream is
  ended cleanly just when no write waits for credit.
Trusted boundary: none
Main exports: ends_clean
-/
import HelixKit.Lib.Runs
import HelixKit.Stream.GoStream
import HelixKit.Stream.TsSession

namespace HelixKit.Stream

open HelixKit.Runs

/-! ### Ending a stream -/

/-- The stream has sent END. -/
def TsHandle.Ended (h : TsHandle) : Prop :=
  ∃ frame ∈ h.emitted, frame.type = .fEnd

/-- Before an END the stream has sent all bytes that its writes took, and after
it no DATA. -/
def EndsClean (h : TsHandle) : Prop :=
  ∀ before frame after, h.emitted = before ++ frame :: after → frame.type = .fEnd →
    dataOf before = h.accepted ∧ ∀ later ∈ after, later.type ≠ .fData

/-- What holds of every stream object between two rounds of `flush`. -/
structure Orderly (sessionClosed : Bool) (h : TsHandle) : Prop where
  clean : EndsClean h
  pending : sessionClosed = false → h.stream.closed = false →
    dataOf h.emitted ++ pendingBytes h.stream.queue = h.accepted
  sendClosed : h.Ended → h.stream.sendClosed = true

/-- Nothing waits on a stream that has sent END. -/
def Drained (h : TsHandle) : Prop :=
  h.Ended → h.stream.queue = []

/-- `P` holds of every stream object. -/
def EachStream (P : Bool → TsHandle → Prop) (e : TsEndpoint) : Prop :=
  ∀ (i : Nat) h, e.objects[i]? = some h → P e.session.closed h

/-- The invariant of a run. -/
def AllOrderly (e : TsEndpoint) : Prop :=
  EachStream (fun closed h => Orderly closed h ∧ Drained h) e

variable {h : TsHandle}

theorem endsClean_of_not_ended (open_ : ¬ h.Ended) : EndsClean h := by
  intro before frame after parts ends
  refine absurd ⟨frame, ?_, ends⟩ open_
  rw [parts]
  simp

variable {sessionClosed : Bool}

theorem Orderly.closed (orderly : Orderly sessionClosed h) :
    Orderly true h :=
  ⟨orderly.clean, by simp, orderly.sendClosed⟩

theorem Orderly.torn (orderly : Orderly sessionClosed h) (after : Bool) : Orderly after h.torn :=
  ⟨orderly.clean, by simp [TsHandle.torn], orderly.sendClosed⟩

theorem drained_torn (h : TsHandle) : Drained h.torn :=
  fun _ => rfl

variable {e : TsEndpoint}

theorem AllOrderly.tornFrom {after : TsEndpoint} (all : AllOrderly e) (torn : TornFrom e after)
    (closed : after.session.closed = true ∨ after.session.closed = e.session.closed) :
    AllOrderly after := by
  intro i h present
  rcases torn i with same | torn
  · rw [same] at present
    obtain ⟨orderly, drained⟩ := all i h present
    refine ⟨?_, drained⟩
    rcases closed with closed | kept
    · rw [closed]
      exact orderly.closed
    · rw [kept]
      exact orderly
  · rw [torn, Option.map_eq_some_iff] at present
    obtain ⟨old, present, rfl⟩ := present
    exact ⟨(all i old present).1.torn _, drained_torn old⟩

variable {r : Nat}

/-- Changing one stream object keeps the invariant if it keeps it there. -/
theorem AllOrderly.modify {after : TsEndpoint} {change : TsHandle → TsHandle}
    (all : AllOrderly e) (objects : after.objects = e.objects.modify r change)
    (session : after.session.closed = e.session.closed)
    (keeps : ∀ h, e.objects[r]? = some h → Orderly e.session.closed h → Drained h →
      Orderly e.session.closed (change h) ∧ Drained (change h)) : AllOrderly after := by
  intro i h present
  rw [objects] at present
  rw [session]
  rcases getElem?_modify_cases present with ⟨old, before, rfl⟩ | ⟨-, before⟩
  · exact keeps old before (all r old before).1 (all r old before).2
  · exact all i h before

/-- A frame that is neither DATA nor END. -/
def FrameType.Quiet (type : FrameType) : Prop :=
  type ≠ .fData ∧ type ≠ .fEnd

/-- What is emitted after a quiet frame splits as before it. -/
theorem split_append_quiet {emitted before after : List Frame} {frame quiet : Frame}
    (isQuiet : quiet.type.Quiet) (ends : frame.type = .fEnd)
    (parts : emitted ++ [quiet] = before ++ frame :: after) :
    ∃ less, after = less ++ [quiet] ∧ emitted = before ++ frame :: less := by
  rcases List.eq_nil_or_concat after with rfl | ⟨less, last, rfl⟩
  · obtain ⟨-, same⟩ := List.append_inj' parts rfl
    cases same
    exact absurd ends isQuiet.2
  · rw [List.concat_eq_append] at parts ⊢
    rw [← List.cons_append, ← List.append_assoc] at parts
    obtain ⟨same, last⟩ := List.append_inj' parts rfl
    cases last
    exact ⟨less, rfl, same⟩

theorem ended_append {frame : Frame} (other : frame.type ≠ .fEnd) :
    TsHandle.Ended { h with emitted := h.emitted ++ [frame] } ↔ h.Ended := by
  simp [TsHandle.Ended, or_and_right, exists_or, other]

theorem EndsClean.quiet {frame : Frame} (clean : EndsClean h) (isQuiet : frame.type.Quiet) :
    EndsClean { h with emitted := h.emitted ++ [frame] } := by
  intro before last after parts ends
  obtain ⟨less, rfl, earlier⟩ := split_append_quiet isQuiet ends parts
  obtain ⟨bytes, noData⟩ := clean before last less earlier ends
  refine ⟨bytes, ?_⟩
  intro later present
  rcases List.mem_append.mp present with old | new
  · exact noData later old
  · rw [List.mem_singleton.mp new]
    exact isQuiet.1

theorem dataOf_quiet {frame : Frame} (isQuiet : frame.type.Quiet) : dataOf [frame] = [] := by
  simp [dataOf, isQuiet.1]

theorem Orderly.quiet {frame : Frame}
    (orderly : Orderly sessionClosed h) (isQuiet : frame.type.Quiet) :
    Orderly sessionClosed { h with emitted := h.emitted ++ [frame] } where
  clean := orderly.clean.quiet isQuiet
  pending := by
    intro opened alive
    rw [dataOf_append, dataOf_quiet isQuiet, List.append_nil]
    exact orderly.pending opened alive
  sendClosed := by
    rw [ended_append isQuiet.2]
    exact orderly.sendClosed

/-- Sending a quiet frame keeps the invariant. -/
theorem AllOrderly.sendFrame (all : AllOrderly e) (sender : Option Nat)
    {type : FrameType} (isQuiet : type.Quiet) (id : Nat) (payload : Bytes) :
    AllOrderly (e.sendFrame sender type id payload) := by
  have sending := sendFrame_step e sender type id payload
  generalize e.sendFrame sender type id payload = after at sending ⊢
  cases sending with
  | dropped _ => exact all
  | failed _ closed torn => exact all.tornFrom torn (Or.inl closed)
  | sent _ _ session objects =>
    cases sender with
    | none =>
      intro i h present
      rw [objects] at present
      rw [session]
      exact all i h present
    | some r =>
      apply all.modify objects (by rw [session])
      intro h _ orderly drained
      refine ⟨orderly.quiet isQuiet, ?_⟩
      intro ended
      exact drained ((ended_append isQuiet.2).mp ended)

/-! ### Flushing -/

theorem pendingBytes_append (first second : List PendingWrite) :
    pendingBytes (first ++ second) = pendingBytes first ++ pendingBytes second :=
  List.flatMap_append

variable {w : PendingWrite}

/-- A round takes the first bytes of the queue. -/
theorem pendingBytes_flushed {st : TsStream} {rest : List PendingWrite}
    (queue : st.queue = w :: rest) (chunk : Nat) :
    (w.data.drop w.offset).take chunk ++ pendingBytes (st.flushed chunk).queue =
      pendingBytes st.queue := by
  simp only [TsStream.flushed, queue]
  split
  next whole =>
    rw [List.take_of_length_le (by simp; omega)]
    rfl
  · change _ ++ (w.data.drop (w.offset + chunk) ++ pendingBytes rest) =
      w.data.drop w.offset ++ pendingBytes rest
    rw [← List.append_assoc, ← List.drop_drop, List.take_append_drop]

theorem flushed_drained {st : TsStream} (empty : st.queue = []) (chunk : Nat) :
    (st.flushed chunk).queue = [] := by
  simp only [TsStream.flushed, empty]

theorem Orderly.flushed (orderly : Orderly true h) (chunk : Nat) :
    Orderly true { h with stream := h.stream.flushed chunk } :=
  ⟨orderly.clean, by simp, orderly.sendClosed⟩

theorem Drained.flushed (drained : Drained h) (chunk : Nat) :
    Drained { h with stream := h.stream.flushed chunk } :=
  fun ended => flushed_drained (drained ended) chunk

/-- A DATA frame from the front of the queue. -/
theorem Orderly.data
    {rest : List PendingWrite} (orderly : Orderly sessionClosed h) (open_ : ¬ h.Ended)
    (queue : h.stream.queue = w :: rest) (id : UInt32) (chunk : Nat) :
    Orderly sessionClosed
        { h with
          stream := h.stream.flushed chunk
          emitted :=
            h.emitted ++
              [{ type := .fData, streamID := id,
                 payload := (w.data.drop w.offset).take chunk }] } ∧
      Drained
        { h with
          stream := h.stream.flushed chunk
          emitted :=
            h.emitted ++
              [{ type := .fData, streamID := id,
                 payload := (w.data.drop w.offset).take chunk }] } := by
  have still : ¬ TsHandle.Ended
      { h with
        emitted :=
          h.emitted ++
            [{ type := .fData, streamID := id,
               payload := (w.data.drop w.offset).take chunk }] } := by
    rw [ended_append (by simp)]
    exact open_
  refine ⟨⟨endsClean_of_not_ended still, ?_, fun ended => absurd ended still⟩,
    fun ended => absurd ended still⟩
  intro opened alive
  have pending := orderly.pending opened alive
  rw [← pendingBytes_flushed queue chunk, ← List.append_assoc] at pending
  rw [dataOf_append]
  simpa [dataOf] using pending

theorem AllOrderly.flushRound (all : AllOrderly e) {rest : List PendingWrite} (present : e.objects[r]? = some h)
    (queue : h.stream.queue = w :: rest) : AllOrderly (e.flushRound r h.stream w) := by
  obtain ⟨objects, session⟩ := flushRound_objects e r h.stream w
  have sending :=
    sendFrame_step e (some r) .fData h.stream.id
      ((w.data.drop w.offset).take (e.chunk h.stream w))
  generalize e.sendFrame (some r) .fData h.stream.id
    ((w.data.drop w.offset).take (e.chunk h.stream w)) = sent at sending objects session
  cases sending with
  | dropped closed =>
    apply all.modify objects (by rw [session])
    intro old _ orderly drained
    rw [closed] at orderly ⊢
    exact ⟨orderly.flushed _, drained.flushed _⟩
  | failed _ closed torn =>
    apply (all.tornFrom torn (Or.inl closed)).modify objects (by rw [session])
    intro old _ orderly drained
    rw [closed] at orderly ⊢
    exact ⟨orderly.flushed _, drained.flushed _⟩
  | sent _ opened same logged =>
    rw [logged, logFrame, List.modify_modify_eq] at objects
    apply all.modify objects (by rw [session, same])
    intro old before orderly drained
    cases Option.some.inj (present.symm.trans before)
    apply orderly.data _ queue
    intro ended
    rw [drained ended] at queue
    cases queue

theorem AllOrderly.flushLoop (all : AllOrderly e) (fuel r : Nat) :
    AllOrderly (TsEndpoint.flushLoop fuel e r) := by
  induction fuel generalizing e with
  | zero => exact all
  | succ fuel ih =>
    unfold TsEndpoint.flushLoop
    split
    · exact all
    rename_i h present
    split
    · exact all
    rename_i w rest queue
    split
    · exact all
    · exact ih (all.flushRound present queue)

theorem AllOrderly.flush (all : AllOrderly e) (r : Nat) :
    AllOrderly (e.flush r) := by
  unfold TsEndpoint.flush
  split
  · exact all
  · exact all.flushLoop _ r

/-! ### The calls -/

theorem AllOrderly.teardown (all : AllOrderly e) (err : Option TsErr)
    (r : Nat) : AllOrderly (e.teardown err r) :=
  all.tornFrom (teardown_torn err e r) (Or.inr (by rw [teardown_session]))

theorem AllOrderly.closeWithErr (all : AllOrderly e) (err : Option TsErr) :
    AllOrderly (e.closeWithErr err) :=
  all.tornFrom (closeWithErr_torn e err) (Or.inl (closeWithErr_closed e err))

theorem AllOrderly.removeStream (all : AllOrderly e) (id : Nat) :
    AllOrderly (e.removeStream id) :=
  all

theorem AllOrderly.write {e : TsEndpoint} (all : AllOrderly e) (r : Nat) (data : Bytes) :
    AllOrderly (e.write r data) := by
  unfold TsEndpoint.write
  dsimp only
  split
  · exact all
  rename_i h present
  split
  · exact all
  split
  · exact all
  rename_i alive unsent
  apply AllOrderly.flush
  refine all.modify rfl rfl ?_
  intro old before orderly drained
  cases Option.some.inj (present.symm.trans before)
  have open_ : ¬ h.Ended := fun ended => unsent (orderly.sendClosed ended)
  refine ⟨⟨endsClean_of_not_ended open_, ?_, orderly.sendClosed⟩,
    fun ended => absurd ended open_⟩
  intro opened _
  rw [pendingBytes_append, ← List.append_assoc,
    orderly.pending opened (by simpa using alive)]
  simp [pendingBytes]

theorem AllOrderly.onCredit (all : AllOrderly e) (r : Nat) (n : UInt32) :
    AllOrderly (e.onCredit r n) := by
  apply AllOrderly.flush
  refine all.modify rfl rfl ?_
  intro old _ orderly drained
  exact ⟨⟨orderly.clean, orderly.pending, orderly.sendClosed⟩, drained⟩

theorem quiet_credit : FrameType.Quiet .fCredit := by simp [FrameType.Quiet]

theorem AllOrderly.onData {e : TsEndpoint} (all : AllOrderly e) (r : Nat) (payload : Bytes) :
    AllOrderly (e.onData r payload) := by
  have counted (unacked : Nat) :
      AllOrderly (e.modify r fun h => { h with stream := { h.stream with unacked } }) := by
    refine all.modify rfl rfl ?_
    intro old _ orderly drained
    exact ⟨⟨orderly.clean, orderly.pending, orderly.sendClosed⟩, drained⟩
  unfold TsEndpoint.onData
  split
  · exact all
  split
  · exact all
  dsimp only
  split
  · exact (counted 0).sendFrame _ quiet_credit _ _
  · exact counted _

/-- An END on this stream goes to the session's transport. -/
def SendsEnd (e : TsEndpoint) (h : TsHandle) : Prop :=
  e.session.closed = false ∧ h.stream.closed = false ∧ h.stream.sendClosed = false

/-- The stream after it has sent END. -/
def TsHandle.sentEnd (id : UInt32) (h : TsHandle) : TsHandle :=
  { h with
    stream := { h.stream with sendClosed := true }
    emitted := h.emitted ++ [{ type := .fEnd, streamID := id, payload := [] }] }

theorem endsClean_sentEnd {id : UInt32} (open_ : ¬ h.Ended)
    (all : dataOf h.emitted = h.accepted) : EndsClean (h.sentEnd id) := by
  intro before frame after parts ends
  rcases List.eq_nil_or_concat after with rfl | ⟨less, last, rfl⟩
  · obtain ⟨same, -⟩ := List.append_inj' parts rfl
    exact ⟨same ▸ all, by simp⟩
  · rw [List.concat_eq_append, ← List.cons_append, ← List.append_assoc] at parts
    obtain ⟨same, -⟩ := List.append_inj' parts rfl
    exact absurd ⟨frame, by rw [same]; simp, ends⟩ open_

theorem Orderly.sentEnd (orderly : Orderly false h) (open_ : ¬ h.Ended)
    (alive : h.stream.closed = false) (sent : pendingBytes h.stream.queue = []) (id : UInt32) :
    Orderly false (h.sentEnd id) := by
  have pending := orderly.pending rfl alive
  refine ⟨endsClean_sentEnd open_ (by simpa [sent] using pending), ?_, fun _ => rfl⟩
  intro _ _
  simpa [TsHandle.sentEnd, dataOf] using pending

/-- `end` sends END, or it keeps the invariant in any case. -/
theorem endSend_cases (all : AllOrderly e) (r : Nat) :
    AllOrderly (e.endSend r) ∨
      ∃ h id, e.objects[r]? = some h ∧ SendsEnd e h ∧ (e.endSend r).session = e.session ∧
        (e.endSend r).objects = e.objects.modify r (TsHandle.sentEnd id) := by
  unfold TsEndpoint.endSend
  split
  · exact Or.inl all
  rename_i h present
  split
  · exact Or.inl all
  rename_i sends
  obtain ⟨unsent, alive⟩ := not_or.mp sends
  have marked : AllOrderly (e.modify r TsHandle.closeSend) := by
    refine all.modify rfl rfl ?_
    intro old _ orderly drained
    exact ⟨⟨orderly.clean, orderly.pending, fun _ => rfl⟩, drained⟩
  have sending :=
    sendFrame_step (e.modify r TsHandle.closeSend) (some r) .fEnd h.stream.id []
  generalize (e.modify r TsHandle.closeSend).sendFrame (some r) .fEnd h.stream.id [] = after
    at sending ⊢
  cases sending with
  | dropped _ => exact Or.inl marked
  | failed _ closed torn => exact Or.inl (marked.tornFrom torn (Or.inl closed))
  | sent _ opened same logged =>
    right
    refine ⟨h, UInt32.ofNat h.stream.id, present, ⟨opened, by simpa using alive, by simpa using unsent⟩, same, ?_⟩
    rw [logged, logFrame, TsEndpoint.modify, List.modify_modify_eq]
    rfl

theorem Orderly.not_ended
    (orderly : Orderly sessionClosed h) (unsent : h.stream.sendClosed = false) : ¬ h.Ended := by
  intro ended
  rw [orderly.sendClosed ended] at unsent
  cases unsent

/-- `end` with nothing in the queue. -/
theorem AllOrderly.endSend (all : AllOrderly e)
    (flushed : ∀ h, e.objects[r]? = some h → SendsEnd e h → h.stream.queue = []) :
    AllOrderly (e.endSend r) := by
  rcases endSend_cases all r with kept | ⟨h, id, present, sends, session, objects⟩
  · exact kept
  · refine all.modify objects (by rw [session]) ?_
    intro old before orderly drained
    cases Option.some.inj (present.symm.trans before)
    obtain ⟨opened, alive, unsent⟩ := sends
    have empty := flushed h present ⟨opened, alive, unsent⟩
    rw [opened] at orderly ⊢
    have bytes : pendingBytes h.stream.queue = [] := by rw [empty]; rfl
    exact ⟨orderly.sentEnd (orderly.not_ended unsent) alive bytes id, fun _ => empty⟩

theorem teardown_objects (err : Option TsErr)
    (present : e.objects[r]? = some h) (alive : h.stream.closed = false) :
    (e.teardown err r).objects = e.objects.modify r TsHandle.torn := by
  simp [TsEndpoint.teardown, present, alive, TsEndpoint.modify]

/-- `close` with no bytes in the queue. -/
theorem AllOrderly.close {e : TsEndpoint} (all : AllOrderly e) {r : Nat}
    (flushed : ∀ h, e.objects[r]? = some h → SendsEnd e h → pendingBytes h.stream.queue = []) :
    AllOrderly (e.close r) := by
  unfold TsEndpoint.close
  split
  · exact all
  · apply AllOrderly.removeStream
    rcases endSend_cases all r with kept | ⟨h, id, present, sends, session, objects⟩
    · exact kept.teardown none r
    · have ended : (e.endSend r).objects[r]? = some (h.sentEnd id) := by
        rw [objects, List.getElem?_modify_eq, present]
        rfl
      have torn := teardown_objects none ended sends.2.1
      rw [objects, List.modify_modify_eq] at torn
      refine all.modify torn (by rw [teardown_session, session]) ?_
      intro old before orderly drained
      cases Option.some.inj (present.symm.trans before)
      obtain ⟨opened, alive, unsent⟩ := sends
      have bytes := flushed h present ⟨opened, alive, unsent⟩
      rw [opened] at orderly ⊢
      have sent := orderly.sentEnd (orderly.not_ended unsent) alive bytes id
      exact ⟨sent.torn _, drained_torn _⟩

theorem quiet_reset : FrameType.Quiet .fReset := by simp [FrameType.Quiet]

theorem AllOrderly.reset (all : AllOrderly e) (r : Nat) (reason : Bytes) :
    AllOrderly (e.reset r reason) := by
  unfold TsEndpoint.reset
  split
  · exact all
  apply AllOrderly.removeStream
  apply AllOrderly.teardown
  split
  · exact all
  · exact all.sendFrame _ quiet_reset _ _

theorem AllOrderly.signal (all : AllOrderly e) (r : Nat) (payload : Bytes) :
    AllOrderly (e.signal r payload) := by
  unfold TsEndpoint.signal
  split
  · exact all
  · exact all.sendFrame _ (by simp [FrameType.Quiet]) _ _

theorem AllOrderly.create (all : AllOrderly e) (id : Nat) (openMeta : Bytes) :
    AllOrderly (e.create id openMeta) := by
  intro i h present
  simp only [TsEndpoint.create] at present
  rcases List.mem_append.mp (List.mem_of_getElem? present) with old | new
  · obtain ⟨j, before⟩ := List.getElem?_of_mem old
    exact all j h before
  · rw [List.mem_singleton.mp new]
    refine ⟨⟨endsClean_of_not_ended (by simp [TsHandle.Ended]), fun _ _ => rfl, by simp [TsHandle.Ended]⟩, ?_⟩
    exact fun _ => rfl

theorem AllOrderly.openStream {e : TsEndpoint} (all : AllOrderly e) (openMeta : Bytes) :
    AllOrderly (e.openStream openMeta) := by
  unfold TsEndpoint.openStream
  split
  · exact all
  · apply AllOrderly.sendFrame _ _ (by simp [FrameType.Quiet])
    exact all.create e.session.nextId openMeta

theorem AllOrderly.dispatch (all : AllOrderly e) (message : Bytes) :
    AllOrderly (e.dispatch message) := by
  unfold TsEndpoint.dispatch
  split
  · exact all
  next type id payload _ =>
    dsimp only
    cases type with
    | fPing => exact all.sendFrame _ (by simp [FrameType.Quiet]) _ _
    | fOpen => exact all.create _ _
    | fData =>
      cases e.session.streams.lookup id.toNat with
      | none => exact all
      | some r => exact all.onData r payload
    | fReset =>
      cases e.session.streams.lookup id.toNat with
      | none => exact all
      | some r => exact (all.teardown _ r).removeStream _
    | fCredit =>
      cases e.session.streams.lookup id.toNat with
      | none => exact all
      | some r => exact all.onCredit r _
    | fEnd | fSignal | fPong | unknown => exact all

/-! ### The peer -/

/-- What a Go peer's stream makes of a frame of this direction. -/
def goReceive (st : GoStream) (frame : Frame) : GoStream :=
  let op : Option StreamOp :=
    match frame.type with
    | .fData => some (.onData frame.payload)
    | .fEnd => some .onEnd
    | _ => none
  ((op.bind (st.exec 0 false)).map StreamEffect.stream).getD st

/-- The bytes of the frames before the first END. -/
def dataBeforeEnd : List Frame → Bytes
  | [] => []
  | frame :: rest =>
    if frame.type = .fEnd then [] else dataOf [frame] ++ dataBeforeEnd rest

variable {st : GoStream}

theorem goReceive_ended (frame : Frame) (ended : st.reof = true) :
    (goReceive st frame).rbuf = st.rbuf ∧ (goReceive st frame).reof = true := by
  obtain ⟨type, id, payload⟩ := frame
  cases type <;> simp [goReceive, GoStream.exec, ended]

theorem foldl_goReceive_ended (sent : List Frame) (ended : st.reof = true) :
    (sent.foldl goReceive st).rbuf = st.rbuf := by
  induction sent generalizing st with
  | nil => rfl
  | cons frame rest ih =>
    obtain ⟨kept, still⟩ := goReceive_ended frame ended
    rw [List.foldl_cons, ih still, kept]

/-- A Go stream keeps the bytes that come before the first END. -/
theorem foldl_goReceive (sent : List Frame) (opened : st.reof = false) (sound : st.rerr = none) :
    (sent.foldl goReceive st).rbuf = st.rbuf ++ dataBeforeEnd sent := by
  induction sent generalizing st with
  | nil => simp [dataBeforeEnd]
  | cons frame rest ih =>
    rw [List.foldl_cons, dataBeforeEnd]
    split
    next ends =>
      have ended : (goReceive st frame).reof = true ∧ (goReceive st frame).rbuf = st.rbuf := by
        simp [goReceive, ends, GoStream.exec]
      rw [foldl_goReceive_ended rest ended.1, ended.2, List.append_nil]
    next other =>
      have kept : (goReceive st frame).reof = false ∧ (goReceive st frame).rerr = none ∧
          (goReceive st frame).rbuf = st.rbuf ++ dataOf [frame] := by
        obtain ⟨type, id, payload⟩ := frame
        cases type <;> simp_all [goReceive, GoStream.exec, dataOf]
      rw [ih kept.1 kept.2.1, kept.2.2, List.append_assoc]

/-- The frames of a stream, split at the first END. -/
theorem exists_first_end {sent : List Frame} (ended : ∃ frame ∈ sent, frame.type = .fEnd) :
    ∃ before frame after, sent = before ++ frame :: after ∧ frame.type = .fEnd ∧
      dataBeforeEnd sent = dataOf before := by
  induction sent with
  | nil => simp at ended
  | cons first rest ih =>
    by_cases ends : first.type = .fEnd
    · exact ⟨[], first, rest, rfl, ends, by simp [dataBeforeEnd, ends]⟩
    · have later : ∃ frame ∈ rest, frame.type = .fEnd := by simpa [ends] using ended
      obtain ⟨before, frame, after, rfl, isEnd, bytes⟩ := ih later
      refine ⟨first :: before, frame, after, rfl, isEnd, ?_⟩
      rw [dataBeforeEnd, if_neg ends, bytes, ← dataOf_append]
      rfl

/-- A Go peer that has received what the stream sent, its END included, holds
every byte that the stream's writes took. -/
def PeerHasAll (h : TsHandle) : Prop :=
  h.Ended → ∀ window openMeta,
    (h.emitted.foldl goReceive (newStream window openMeta)).rbuf = h.accepted

theorem EndsClean.peerHasAll (clean : EndsClean h) : PeerHasAll h := by
  intro ended window openMeta
  obtain ⟨before, frame, after, parts, isEnd, bytes⟩ := exists_first_end ended
  rw [foldl_goReceive _ rfl rfl, bytes, (clean before frame after parts isEnd).1]
  rfl

/-! ### Runs -/

/-- `end` is called only once nothing waits in the queue, and `close` only once
no byte does. -/
def FlushedFirst (e : TsEndpoint) : TsEvent → Prop
  | .endSend r => ∀ h, e.objects[r]? = some h → SendsEnd e h → h.stream.queue = []
  | .close r =>
    ∀ h, e.objects[r]? = some h → SendsEnd e h → pendingBytes h.stream.queue = []
  | _ => True

theorem AllOrderly.step {e : TsEndpoint} {event : TsEvent} (all : AllOrderly e)
    (flushed : FlushedFirst e event) : AllOrderly (tsStep e event) := by
  cases event with
  | openStream openMeta => exact all.openStream openMeta
  | write r data => exact all.write r data
  | endSend r => exact all.endSend flushed
  | reset r reason => exact all.reset r reason
  | close r => exact all.close flushed
  | signal r payload => exact all.signal r payload
  | closeSession => exact all.closeWithErr none
  | ping => exact all.sendFrame _ (by simp [FrameType.Quiet]) _ _
  | message data => exact all.dispatch data
  | transportClosed err => exact all.closeWithErr err

/-- A session before its first event, over a transport that throws on the
frames in `throws`. -/
def newTsEndpoint (opts : TsOptions) (throws : Nat → Bool) : TsEndpoint :=
  { session := newTsSession opts, throws }

/-- Every stream of the process ended cleanly, if it ended, and left its peer
with all bytes. -/
def AllEndClean (e : TsEndpoint) : Prop :=
  ∀ h ∈ e.objects, EndsClean h ∧ PeerHasAll h

/-- In every run in which `end` and `close` find the queue flushed, no stream
sends DATA after its END, and all bytes its writes took come before it, so that
a Go peer has them all. -/
theorem ends_clean {opts : TsOptions} {throws : Nat → Bool} {events : List TsEvent}
    (flushed : Along tsStep FlushedFirst (newTsEndpoint opts throws) events) :
    AllEndClean (run tsStep (newTsEndpoint opts throws) events) := by
  have start : AllOrderly (newTsEndpoint opts throws) := by
    intro i h present
    simp [newTsEndpoint] at present
  have all := flushed.invariant AllOrderly (fun _ _ before now => before.step now) start
  intro h present
  obtain ⟨i, found⟩ := List.getElem?_of_mem present
  have clean := (all i h found).1.clean
  exact ⟨clean, clean.peerHasAll⟩

/-- A session whose streams start with a window of one byte. -/
def narrow : TsEndpoint :=
  newTsEndpoint { client := true, initialWindow := 1 } fun _ => false

/-- A byte that the window takes, then END. -/
theorem ends_clean_one :
    AllEndClean (run tsStep narrow [.openStream [], .write 0 [0x58], .endSend 0]) := by
  apply ends_clean
  refine ⟨trivial, trivial, ?_, trivial⟩
  intro h present _
  have empty :
      ((run tsStep narrow [.openStream [], .write 0 [0x58]]).objects[0]?.map
        fun h => h.stream.queue) = some [] := by decide
  have found : (run tsStep narrow [.openStream [], .write 0 [0x58]]).objects[0]? = some h :=
    present
  rw [found] at empty
  exact Option.some.inj empty

/-- The second of two bytes waits for credit when END is sent, and follows it. -/
theorem ends_clean_fails :
    ¬ AllEndClean
        (run tsStep narrow
          [.openStream [], .write 0 [0x58, 0x59], .endSend 0,
            .message (encodeFrame .fCredit 1 (encodeCredit 1))]) := by
  intro all
  let data (byte : UInt8) : Frame := { type := .fData, streamID := 1, payload := [byte] }
  have clean :=
    all
      { stream := { id := 1, openMeta := [], window := 0, sendClosed := true }
        accepted := [0x58, 0x59]
        emitted :=
          [{ type := .fOpen, streamID := 1, payload := [] }, data 0x58,
            { type := .fEnd, streamID := 1, payload := [] }, data 0x59] }
      (by decide)
  have split := clean.1 [{ type := .fOpen, streamID := 1, payload := [] }, data 0x58] _ _ rfl rfl
  exact split.2 (data 0x59) (by simp) rfl

end HelixKit.Stream
