/-
Purpose: A TypeScript session as one end of a connection, what its peer may rely on, and what
  becomes of the writes of a stream that was ended or reset.
Trusted boundary: none
-/
import HelixKit.Stream.HalfClose
import HelixKit.Stream.Release

namespace HelixKit.Stream

open HelixKit.Duplex HelixKit.History

/-! ### A session as one end of a connection -/

/-- A session and the streams whose `onEnd` was called. -/
structure TsNode where
  endpoint : TsEndpoint
  ended : List Nat := []

/-- The streams whose `onEnd` was called once `message` is dispatched. -/
def TsNode.onEnds (n : TsNode) (message : Bytes) : List Nat :=
  match decodeFrame message with
  | some { type := .fEnd, streamID, payload := _ } =>
    (n.endpoint.session.streams.lookup streamID.toNat).toList ++ n.ended
  | _ => n.ended

/-- The application calls the session, or the transport or the timer does. -/
def TsNode.act (n : TsNode) : TsEvent → Option (TsNode × List Bytes)
  | .message _ => none
  | event =>
    let after := tsStep n.endpoint event
    some ({ n with endpoint := after }, after.out.drop n.endpoint.out.length)

/-- A message comes in. -/
def TsNode.receive (n : TsNode) (message : Bytes) : Option (TsNode × List Bytes) :=
  let after := tsStep n.endpoint (.message message)
  some
    ({ endpoint := after, ended := n.onEnds message },
      after.out.drop n.endpoint.out.length)

def tsMachine : Machine TsNode TsEvent Bytes where
  act := TsNode.act
  receive := TsNode.receive

/-- An event in which the session does not run out of ids, `end` finds nothing in the queue, and
`close` is called on a stream only after its peer's END, or after a teardown. -/
def TsEvent.Courteous (n : TsNode) : TsEvent → Prop
  | .openStream _ => n.endpoint.session.nextId < 2 ^ 32
  | .endSend r => ∀ h, n.endpoint.objects[r]? = some h → h.stream.sendClosed = false →
      h.stream.closed = false → h.stream.queue = []
  | .close r => ∀ h, n.endpoint.objects[r]? = some h →
      r ∈ n.ended ∨ h.stream.closed = true
  | _ => True

/-! ### The invariant -/

/-- The id of a stream on the wire. -/
def TsHandle.streamID (h : TsHandle) : UInt32 := UInt32.ofNat h.stream.id

/-- A stream object that has sent `h.emitted` and heard `heard`.  `own` says that this side opened
it. -/
structure TsFine (own : Prop) (h : TsHandle) (heard : List Frame) : Prop where
  opened : own → Opened h.emitted ∧ Allowed OpensFirst h.emitted
  remote : ¬ own → Opened heard
  opens : h.emitted.countP (fun frame => frame.type == .fOpen) ≤ 1
  owns : Opened h.emitted → own
  order : Allowed EndsLast h.emitted
  ended : Ended h.emitted → h.stream.sendClosed = true
  drained : h.stream.sendClosed = true ∨ h.stream.closed = true → h.stream.queue = []
  torn : h.stream.closed = true → Ended heard ∨ WasReset h.emitted ∨ WasReset heard
  resets : WasReset h.emitted ∨ WasReset heard → h.stream.closed = true

/-- What holds of the streams while the session goes on. -/
structure TsAlive (client : Bool) (ended : List Nat) (received : List Frame) (e : TsEndpoint) :
    Prop where
  parity : e.session.nextId % 2 = if client then 1 else 0
  small : ∀ {r : Nat} {h}, e.objects[r]? = some h → h.stream.id < 2 ^ 32
  unique : ∀ {r other : Nat} {h h'}, e.objects[r]? = some h → e.objects[other]? = some h' →
    h.stream.id = h'.stream.id → r = other
  before : ∀ {r : Nat} {h}, e.objects[r]? = some h → Own client h.streamID →
    h.stream.id < e.session.nextId
  registered : ∀ {id r}, e.session.streams.lookup id = some r →
    ∃ h, e.objects[r]? = some h ∧ h.stream.id = id
  kept : ∀ {r : Nat} {h}, e.objects[r]? = some h → h.stream.closed = false →
    e.session.streams.lookup h.stream.id = some r
  logged : ∀ {r : Nat} {h}, e.objects[r]? = some h →
    about h.streamID (frames e.out) = h.emitted
  silent : ∀ {id : UInt32}, (∀ (r : Nat) h, e.objects[r]? = some h → h.streamID ≠ id) →
    about id (frames e.out) = [] ∧ about id received = []
  fine : ∀ {r : Nat} {h}, e.objects[r]? = some h →
    TsFine (Own client h.streamID) h (about h.streamID received)
  heardEnd : ∀ {r : Nat}, r ∈ ended →
    ∃ h, e.objects[r]? = some h ∧ Ended (about h.streamID received)

/-- What a session has said of one stream, as far as the peer relies on it. -/
structure Speaks (own : Prop) (sent received : List Frame) : Prop where
  opensFirst : own → Allowed OpensFirst sent
  answers : ¬ own → sent ≠ [] → Opened received
  order : Allowed EndsLast sent
  opens : sent.countP (fun frame => frame.type == .fOpen) ≤ 1
  owns : Opened sent → own

/-- The invariant of a session, with what has come in and the streams whose `onEnd` was called. -/
structure TsGood (client : Bool) (ended : List Nat) (received : List Frame) (e : TsEndpoint) :
    Prop where
  speaks : ∀ id, Speaks (Own client id) (about id (frames e.out)) (about id received)
  alive : e.session.closed = false → TsAlive client ended received e

section Good

variable {client : Bool} {ended : List Nat} {received : List Frame} {e after : TsEndpoint}

theorem TsAlive.speaks (alive : TsAlive client ended received e) (id : UInt32) :
    Speaks (Own client id) (about id (frames e.out)) (about id received) := by
  by_cases present : ∃ (r : Nat) (h : TsHandle), e.objects[r]? = some h ∧ h.streamID = id
  · obtain ⟨r, h, present, rfl⟩ := present
    have fine := alive.fine present
    rw [alive.logged present]
    exact ⟨fun own => (fine.opened own).2, fun remote _ => fine.remote remote, fine.order,
      fine.opens, fine.owns⟩
  · have none := (alive.silent fun r h found same => present ⟨r, h, found, same⟩).1
    rw [none]
    exact ⟨fun _ => allowed_nil _, fun _ some => absurd rfl some, allowed_nil _, by simp,
      fun opened => by simp [Opened] at opened⟩

theorem TsAlive.good (alive : TsAlive client ended received e) :
    TsGood client ended received e := ⟨alive.speaks, fun _ => alive⟩

/-- The session closes, or is closed already, and says nothing more. -/
theorem TsGood.shut (good : TsGood client ended received e)
    (closed : after.session.closed = true) (out : after.out = e.out) :
    TsGood client ended received after :=
  ⟨out ▸ good.speaks, fun alive => by rw [closed] at alive; cases alive⟩

/-- One stream object is replaced by `now`. -/
def Replaces (objects : List TsHandle) (r : Nat) (now : TsHandle) (later : List TsHandle) : Prop :=
  ∀ i : Nat, later[i]? = if i = r then some now else objects[i]?

variable {r : Nat} {h : TsHandle}

theorem replaces_modify {objects : List TsHandle}
    (present : objects[r]? = some h) (change : TsHandle → TsHandle) :
    Replaces objects r (change h) (objects.modify r change) := by
  intro i
  by_cases same : i = r
  · subst same
    simp [present]
  · simp [same, Ne.symm same]

variable {now : TsHandle}

theorem Replaces.modify {objects later : List TsHandle}
    (replaces : Replaces objects r now later) (change : TsHandle → TsHandle) :
    Replaces objects r (change now) (later.modify r change) := by
  intro i
  have other := replaces i
  by_cases same : i = r
  · subst same
    rw [if_pos rfl] at other
    simp [other]
  · rw [if_neg same] at other
    simp [same, Ne.symm same, other]

theorem replaces_append (objects : List TsHandle) (now : TsHandle) :
    Replaces objects objects.length now (objects ++ [now]) := by
  intro i
  by_cases last : i = objects.length
  · simp [last]
  · rw [if_neg last]
    rcases Nat.lt_or_ge i objects.length with inside | outside
    · rw [List.getElem?_append_left inside]
    · rw [List.getElem?_eq_none (by simp; omega), List.getElem?_eq_none outside]

theorem about_eq_nil {id : UInt32} {history : List Frame}
    (elsewhere : ∀ frame ∈ history, frame.isAbout id = false) : about id history = [] :=
  List.filter_eq_nil_iff.mpr (by simpa using elsewhere)

theorem Frame.isAbout_ne {frame : Frame} {id other : UInt32} (isAbout : frame.isAbout id = true)
    (apart : other ≠ id) : frame.isAbout other = false := by
  simp only [Frame.isAbout, Bool.and_eq_true, beq_iff_eq] at isAbout
  simp [Frame.isAbout, isAbout.2, Ne.symm apart]

theorem TsAlive.streamID_inj (alive : TsAlive client ended received e) {other : Nat}
    {h' : TsHandle} (here : e.objects[r]? = some h) (there : e.objects[other]? = some h')
    (same : h.streamID = h'.streamID) : r = other := by
  refine alive.unique here there ?_
  have nats := congrArg UInt32.toNat same
  simp only [TsHandle.streamID, UInt32.toNat_ofNat'] at nats
  rwa [Nat.mod_eq_of_lt (alive.small here), Nat.mod_eq_of_lt (alive.small there)] at nats

/-- One stream goes on: it sends `out` and has heard `later`, and nothing else changes. -/
theorem TsAlive.replace {r : Nat} {h now : TsHandle} {out later : List Frame}
    (alive : TsAlive client ended received e) (present : e.objects[r]? = some h)
    (objects : Replaces e.objects r now after.objects)
    (nextId : after.session.nextId = e.session.nextId)
    (streams : after.session.streams = e.session.streams ∨
      after.session.streams = e.session.streams.erase h.stream.id ∧ now.stream.closed = true)
    (sends : frames after.out = frames e.out ++ out) (id : now.stream.id = h.stream.id)
    (emitted : now.emitted = h.emitted ++ out)
    (still : now.stream.closed = false → h.stream.closed = false)
    (aboutIt : ∀ frame ∈ out, frame.isAbout h.streamID = true)
    (hears : ∀ frame ∈ later, ∀ other ≠ h.streamID, frame.isAbout other = false)
    (fine : TsFine (Own client h.streamID) h (about h.streamID received) →
      TsFine (Own client h.streamID) now (about h.streamID (received ++ later))) :
    TsAlive client ended (received ++ later) after := by
  have streamID : now.streamID = h.streamID := by rw [TsHandle.streamID, id]; rfl
  -- every object is `now` or an old one under another id
  have each : ∀ {i : Nat} {h' : TsHandle}, after.objects[i]? = some h' →
      i = r ∧ h' = now ∨ e.objects[i]? = some h' ∧ h'.streamID ≠ h.streamID ∧ i ≠ r := by
    intro i h' found
    rw [objects i] at found
    split at found
    next same => exact Or.inl ⟨same, (Option.some.inj found).symm⟩
    next other =>
      exact Or.inr ⟨found, fun same => other (alive.streamID_inj found present same), other⟩
  have heardElsewhere : ∀ {other}, other ≠ h.streamID →
      about other (received ++ later) = about other received := by
    intro other apart
    rw [about_append, about_eq_nil fun frame member => hears frame member other apart,
      List.append_nil]
  have sentElsewhere : ∀ {other}, other ≠ h.streamID →
      about other (frames after.out) = about other (frames e.out) := by
    intro other apart
    rw [sends, about_append,
      about_eq_nil fun frame member => Frame.isAbout_ne (aboutIt frame member) apart,
      List.append_nil]
  constructor
  case parity => rw [nextId]; exact alive.parity
  case small =>
    intro i h' found
    rcases each found with ⟨rfl, rfl⟩ | ⟨old, -, -⟩
    · rw [id]; exact alive.small present
    · exact alive.small old
  case unique =>
    intro i other h' h'' here there same
    rcases each here with ⟨rfl, rfl⟩ | ⟨old, -, -⟩ <;>
      rcases each there with ⟨rfl, rfl⟩ | ⟨old', -, -⟩
    · rfl
    · exact alive.unique present old' (id ▸ same)
    · exact alive.unique old present (same.trans id)
    · exact alive.unique old old' same
  case before =>
    intro i h' found own
    rw [nextId]
    rcases each found with ⟨rfl, rfl⟩ | ⟨old, -, -⟩
    · rw [id]; exact alive.before present (streamID ▸ own)
    · exact alive.before old own
  case registered =>
    intro other r' found
    have before : e.session.streams.lookup other = some r' := by
      rcases streams with same | ⟨erased, -⟩
      · rwa [same] at found
      · rw [erased] at found
        by_cases isID : other = h.stream.id
        · subst isID
          simp at found
        · rwa [AList.lookup_erase_ne isID] at found
    obtain ⟨h', old, same⟩ := alive.registered before
    by_cases here : r' = r
    · subst here
      rw [present, Option.some.injEq] at old
      subst old
      exact ⟨now, by rw [objects, if_pos rfl], by rw [id, same]⟩
    · exact ⟨h', by rw [objects, if_neg here, old], same⟩
  case kept =>
    intro i h' found notClosed
    rcases each found with ⟨rfl, rfl⟩ | ⟨old, apart, -⟩
    · rcases streams with same | ⟨-, closed⟩
      · rw [same, id]
        exact alive.kept present (still notClosed)
      · rw [closed] at notClosed
        cases notClosed
    · rcases streams with same | ⟨erased, -⟩
      · rw [same]
        exact alive.kept old notClosed
      · have isOther : h'.stream.id ≠ h.stream.id := fun same => apart (by
          rw [TsHandle.streamID, same]; rfl)
        rw [erased, AList.lookup_erase_ne isOther]
        exact alive.kept old notClosed
  case logged =>
    intro i h' found
    rcases each found with ⟨rfl, rfl⟩ | ⟨old, apart, -⟩
    · rw [streamID, sends, about_append, alive.logged present, emitted,
        about, List.filter_eq_self.mpr aboutIt]
    · rw [sentElsewhere apart]
      exact alive.logged old
  case silent =>
    intro other none
    have apart : other ≠ h.streamID := fun same =>
      none r now (by rw [objects, if_pos rfl]) (streamID.trans same.symm)
    rw [sentElsewhere apart, heardElsewhere apart]
    refine alive.silent fun i h' found => ?_
    by_cases here : i = r
    · subst here
      rw [present, Option.some.injEq] at found
      exact found ▸ apart.symm
    · exact none i h' (by rw [objects, if_neg here, found])
  case fine =>
    intro i h' found
    rcases each found with ⟨rfl, rfl⟩ | ⟨old, apart, -⟩
    · rw [streamID]
      exact fine (alive.fine present)
    · rw [heardElsewhere apart]
      exact alive.fine old
  case heardEnd =>
    intro i member
    obtain ⟨h', old, ends⟩ := alive.heardEnd member
    by_cases here : i = r
    · subst here
      rw [present, Option.some.injEq] at old
      subst old
      refine ⟨now, by rw [objects, if_pos rfl], ?_⟩
      rw [streamID, about_append]
      exact ends.append _
    · have apart : h'.streamID ≠ h.streamID := fun same =>
        here (alive.streamID_inj old present same)
      refine ⟨h', by rw [objects, if_neg here, old], ?_⟩
      rw [heardElsewhere apart]
      exact ends

/-- One stream goes on and sends `out`, or the session is closed. -/
def Moves (e : TsEndpoint) (r : Nat) (h now : TsHandle) (out : List Frame) (after : TsEndpoint) :
    Prop :=
  after.session.closed = true ∧ after.out = e.out ∨
    e.session.closed = false ∧ Replaces e.objects r now after.objects ∧
      after.session.nextId = e.session.nextId ∧
      (after.session.streams = e.session.streams ∨
        after.session.streams = e.session.streams.erase h.stream.id ∧ now.stream.closed = true) ∧
      frames after.out = frames e.out ++ out

theorem TsGood.replace {r : Nat} {h now : TsHandle} {out : List Frame}
    (good : TsGood client ended received e) (present : e.objects[r]? = some h)
    (moves : Moves e r h now out after)
    (id : now.stream.id = h.stream.id) (emitted : now.emitted = h.emitted ++ out)
    (still : now.stream.closed = false → h.stream.closed = false)
    (aboutIt : ∀ frame ∈ out, frame.isAbout h.streamID = true)
    (fine : ∀ {own : Prop} {heard : List Frame}, TsFine own h heard →
      (r ∈ ended → Ended heard) → TsFine own now heard) :
    TsGood client ended received after := by
  rcases moves with ⟨closed, out⟩ | ⟨opened, objects, nextId, streams, sends⟩
  · exact good.shut closed out
  · have alive := good.alive opened
    have later := @TsAlive.replace client ended received e after r h now out [] alive present
      objects nextId streams sends id emitted still aboutIt (by simp) (by
        rw [List.append_nil]
        refine fun old => fine old fun member => ?_
        obtain ⟨h', found, ends⟩ := alive.heardEnd member
        rw [present, Option.some.injEq] at found
        exact found ▸ ends)
    rw [List.append_nil] at later
    exact later.good

variable {out : List Frame}

/-- What one move does to a stream object that it keeps fine. -/
theorem TsFine.goes {own : Prop} {heard : List Frame}
    (fine : TsFine own h heard) (emitted : now.emitted = h.emitted ++ out)
    (one : out = [] ∨ ∃ frame, out = [frame] ∧ frame.type ≠ .fOpen ∧
      (frame.type = .fData → ¬ Ended h.emitted)) (ends : Ended out → now.stream.sendClosed = true)
    (sendClosed : h.stream.sendClosed = true → now.stream.sendClosed = true)
    (drained : now.stream.sendClosed = true ∨ now.stream.closed = true →
      now.stream.queue = [])
    (torn : now.stream.closed = true → h.stream.closed = true ∨ Ended heard ∨ WasReset out)
    (closed : h.stream.closed = true → now.stream.closed = true)
    (resets : WasReset out → now.stream.closed = true) : TsFine own now heard := by
  have notOpen : ∀ frame ∈ out, frame.type ≠ .fOpen := by
    rcases one with rfl | ⟨frame, rfl, notOpen, -⟩
    · simp
    · simpa using notOpen
  constructor
  case opened =>
    intro isOwn
    obtain ⟨opened, first⟩ := fine.opened isOwn
    rw [emitted]
    refine ⟨opened.append out, ?_⟩
    rcases one with rfl | ⟨frame, rfl, -, -⟩
    · simpa using first
    · exact allowed_concat.mpr ⟨first, fun _ => opened⟩
  case remote => exact fine.remote
  case opens =>
    have none : out.countP (fun frame => frame.type == .fOpen) = 0 :=
      List.countP_eq_zero.mpr (by simpa using notOpen)
    rw [emitted, List.countP_append, none]
    exact fine.opens
  case owns =>
    rw [emitted]
    rintro ⟨frame, member, isOpen⟩
    rcases List.mem_append.mp member with old | new
    · exact fine.owns ⟨frame, old, isOpen⟩
    · exact absurd isOpen (notOpen frame new)
  case order =>
    rw [emitted]
    rcases one with rfl | ⟨frame, rfl, -, noData⟩
    · simpa using fine.order
    · exact allowed_concat.mpr ⟨fine.order, noData⟩
  case ended =>
    rw [emitted]
    rintro ⟨frame, member, isEnd⟩
    rcases List.mem_append.mp member with old | new
    · exact sendClosed (fine.ended ⟨frame, old, isEnd⟩)
    · exact ends ⟨frame, new, isEnd⟩
  case drained => exact drained
  case torn =>
    intro nowClosed
    rw [emitted, wasReset_append]
    rcases torn nowClosed with before | heardEnd | sent
    · rcases fine.torn before with heardEnd | sent | heardReset
      · exact Or.inl heardEnd
      · exact Or.inr (Or.inl (Or.inl sent))
      · exact Or.inr (Or.inr heardReset)
    · exact Or.inl heardEnd
    · exact Or.inr (Or.inl (Or.inr sent))
  case resets =>
    rw [emitted, wasReset_append]
    rintro ((old | new) | heardReset)
    · exact closed (fine.resets (Or.inl old))
    · exact resets new
    · exact closed (fine.resets (Or.inr heardReset))

/-! ### Sending -/

@[simp] theorem teardown_out (err : Option TsErr) (e : TsEndpoint) (r : Nat) :
    (e.teardown err r).out = e.out := by
  unfold TsEndpoint.teardown
  split
  · rfl
  · split <;> rfl

@[simp] theorem closeWithErr_out (e : TsEndpoint) (err : Option TsErr) :
    (e.closeWithErr err).out = e.out := by
  have torn : ∀ (refs : List Nat) (e : TsEndpoint),
      (refs.foldl (TsEndpoint.teardown err) e).out = e.out := by
    intro refs
    induction refs with
    | nil => exact fun _ => rfl
    | cons r rest hypothesis => exact fun e => (hypothesis _).trans (teardown_out err e r)
  unfold TsEndpoint.closeWithErr
  split
  · rfl
  · exact torn _ _

/-- A frame is sent, or the session is closed. -/
theorem sendFrame_cases (e : TsEndpoint) (sender : Option Nat) (type : FrameType) (id : Nat)
    (payload : Bytes) :
    (e.sendFrame sender type id payload).session.closed = true ∧
        (e.sendFrame sender type id payload).out = e.out ∨
      e.session.closed = false ∧ (e.sendFrame sender type id payload).session = e.session ∧
        (e.sendFrame sender type id payload).objects =
          logFrame sender { type, streamID := UInt32.ofNat id, payload } e.objects ∧
        (e.sendFrame sender type id payload).out =
          e.out ++ [encodeFrame type (UInt32.ofNat id) payload] := by
  unfold TsEndpoint.sendFrame
  split
  · exact Or.inl ⟨by assumption, rfl⟩
  next opened =>
    dsimp only
    split
    · exact Or.inl ⟨closeWithErr_closed _ _, closeWithErr_out _ _⟩
    · exact Or.inr ⟨by simpa using opened, rfl, rfl, rfl⟩

/-- Nothing changes for any stream. -/
theorem TsAlive.same (alive : TsAlive client ended received e)
    (session : after.session = e.session) (objects : after.objects = e.objects)
    (sends : ∀ id, about id (frames after.out) = about id (frames e.out)) :
    TsAlive client ended received after where
  parity := by rw [session]; exact alive.parity
  small := by rw [objects]; exact alive.small
  unique := by rw [objects]; exact alive.unique
  before := by rw [objects, session]; exact alive.before
  registered := by rw [objects, session]; exact alive.registered
  kept := by rw [objects, session]; exact alive.kept
  logged := by
    rw [objects]
    intro r h found
    rw [sends]
    exact alive.logged found
  silent := by
    rw [objects]
    intro other none
    rw [sends]
    exact alive.silent none
  fine := by rw [objects]; exact alive.fine
  heardEnd := by rw [objects]; exact alive.heardEnd

theorem TsGood.same (good : TsGood client ended received e)
    (session : after.session = e.session) (objects : after.objects = e.objects)
    (out : after.out = e.out) : TsGood client ended received after where
  speaks := by rw [out]; exact good.speaks
  alive opened := (good.alive (session ▸ opened)).same session objects (by simp [out])

/-- A frame that belongs to no stream is sent. -/
theorem TsGood.sendConn (good : TsGood client ended received e) {type : FrameType}
    (named : ∀ code, type ≠ .unknown code) (noStream : type.OfStream = false) (id : Nat)
    (payload : Bytes) : TsGood client ended received (e.sendFrame none type id payload) := by
  rcases sendFrame_cases e none type id payload with
    ⟨closed, out⟩ | ⟨opened, session, objects, out⟩
  · exact good.shut closed out
  · refine ((good.alive opened).same session objects fun other => ?_).good
    rw [out, frames_append, frames_encodeFrame named, about_append]
    simp [about, Frame.isAbout, noStream]

theorem sendFrame_moves (present : e.objects[r]? = some h)
    {type : FrameType} (ofStream : type.OfStream = true) (payload : Bytes) :
    Moves e r h
      { h with emitted := h.emitted ++ [{ type, streamID := h.streamID, payload }] }
      [{ type, streamID := h.streamID, payload }]
      (e.sendFrame (some r) type h.stream.id payload) := by
  refine (sendFrame_cases e (some r) type h.stream.id payload).imp_right ?_
  rintro ⟨opened, session, objects, out⟩
  refine ⟨opened, ?_, by rw [session], Or.inl (by rw [session]), ?_⟩
  · rw [objects]
    exact replaces_modify present _
  · rw [out, frames_append, frames_encodeFrame (FrameType.OfStream.named ofStream)]
    rfl

/-- A change of the object after it has sent. -/
theorem Moves.modify {later : TsEndpoint}
    (moves : Moves e r h now out after) (change : TsHandle → TsHandle)
    (session : later.session = after.session) (sends : later.out = after.out)
    (objects : later.objects = after.objects.modify r change)
    (still : now.stream.closed = true → (change now).stream.closed = true) :
    Moves e r h (change now) out later := by
  unfold Moves
  rw [session, sends]
  refine moves.imp_right ?_
  rintro ⟨opened, replaced, nextId, streams, out⟩
  refine ⟨opened, ?_, nextId, streams.imp_right fun ⟨erased, closed⟩ => ⟨erased, still closed⟩,
    out⟩
  rw [objects]
  exact replaced.modify change

theorem TsGood.signal (good : TsGood client ended received e) (r : Nat) (payload : Bytes) :
    TsGood client ended received (e.signal r payload) := by
  unfold TsEndpoint.signal
  split
  · exact good
  next h present =>
    refine good.replace present (sendFrame_moves present rfl payload) rfl rfl id ?_ ?_
    · simp [Frame.isAbout, FrameType.OfStream]
    · intro own heard fine _
      exact fine.goes rfl (Or.inr ⟨_, rfl, by simp, by simp⟩) (by simp [Ended]) id fine.drained
        Or.inl id (by simp [WasReset])

/-- A change of the object without a frame. -/
theorem modify_moves (present : e.objects[r]? = some h)
    (change : TsHandle → TsHandle) (session : after.session = e.session)
    (out : after.out = e.out) (objects : after.objects = e.objects.modify r change) :
    Moves e r h (change h) [] after := by
  unfold Moves
  rw [session, out, objects]
  by_cases closed : e.session.closed = true
  · exact Or.inl ⟨closed, rfl⟩
  · exact Or.inr ⟨by simpa using closed, replaces_modify present change, rfl, Or.inl rfl,
      (List.append_nil _).symm⟩

/-- A change of the object before it sends. -/
theorem Moves.of_modify
    {change : TsHandle → TsHandle} (moves : Moves (e.modify r change) r (change h) now out after)
    (id : (change h).stream.id = h.stream.id) : Moves e r h now out after := by
  unfold Moves at moves ⊢
  rw [id] at moves
  refine moves.imp_right ?_
  rintro ⟨opened, replaced, rest⟩
  refine ⟨opened, fun i => ?_, rest⟩
  rw [replaced i]
  split
  · rfl
  next other => simp [TsEndpoint.modify, Ne.symm other]

theorem TsGood.onData (good : TsGood client ended received e) (r : Nat) (payload : Bytes) :
    TsGood client ended received (e.onData r payload) := by
  unfold TsEndpoint.onData
  split
  · exact good
  next h present =>
    split
    · exact good
    dsimp only
    split
    · have counted : (e.modify r fun h =>
          { h with stream := { h.stream with unacked := 0 } }).objects[r]? =
            some { h with stream := { h.stream with unacked := 0 } } := by
        simp [TsEndpoint.modify, present]
      have sent := sendFrame_moves counted (show FrameType.fCredit.OfStream = true from rfl)
        (encodeCredit (UInt32.ofNat (h.stream.unacked + payload.length)))
      refine good.replace present (Moves.of_modify sent rfl) rfl rfl id ?_ ?_
      · simp [Frame.isAbout, FrameType.OfStream, TsHandle.streamID]
      · intro own heard fine _
        exact fine.goes rfl (Or.inr ⟨_, rfl, by simp, by simp⟩) (by simp [Ended]) id
          fine.drained Or.inl id (by simp [WasReset])
    · refine good.replace present (modify_moves present _ rfl rfl rfl) rfl
        (List.append_nil _).symm id (by simp) ?_
      intro own heard fine _
      exact fine.goes (List.append_nil _).symm (Or.inl rfl) (by simp [Ended]) id fine.drained
        Or.inl id (by simp)

theorem flushRound_out (e : TsEndpoint) (r : Nat) (st : TsStream) (w : PendingWrite) :
    (e.flushRound r st w).out =
      (e.sendFrame (some r) .fData st.id
        ((w.data.drop w.offset).take (e.chunk st w))).out := by
  simp only [TsEndpoint.flushRound]
  split <;> rfl

theorem TsGood.flushLoop (good : TsGood client ended received e) (fuel r : Nat) :
    TsGood client ended received (TsEndpoint.flushLoop fuel e r) := by
  induction fuel generalizing e with
  | zero => exact good
  | succ fuel hypothesis =>
    unfold TsEndpoint.flushLoop
    split
    · exact good
    next h present =>
      split
      · exact good
      next w rest queue =>
        split
        · exact good
        refine hypothesis ?_
        obtain ⟨objects, session⟩ := flushRound_objects e r h.stream w
        have sent := sendFrame_moves present (show FrameType.fData.OfStream = true from rfl)
          ((w.data.drop w.offset).take (e.chunk h.stream w))
        have round := sent.modify
          (fun h' => { h' with stream := h'.stream.flushed (e.chunk h.stream w) })
          session (flushRound_out e r h.stream w) objects id
        refine good.replace present round rfl rfl id ?_ ?_
        · simp [Frame.isAbout, FrameType.OfStream]
        · intro own heard fine _
          have waits : ¬ (h.stream.sendClosed = true ∨ h.stream.closed = true) := by
            intro shut
            rw [fine.drained shut] at queue
            cases queue
          exact fine.goes rfl
            (Or.inr ⟨_, rfl, by simp, fun _ ends => waits (Or.inl (fine.ended ends))⟩)
            (by simp [Ended]) id (fun shut => absurd shut waits) Or.inl id
            (by simp [WasReset])

theorem TsGood.flush (good : TsGood client ended received e) (r : Nat) :
    TsGood client ended received (e.flush r) := by
  unfold TsEndpoint.flush
  split
  · exact good
  · exact good.flushLoop _ r

theorem TsGood.onCredit (good : TsGood client ended received e) (r : Nat) (n : UInt32) :
    TsGood client ended received (e.onCredit r n) := by
  refine TsGood.flush ?_ r
  cases present : e.objects[r]? with
  | none =>
    have same : e.modify r (fun h =>
        { h with stream := { h.stream with window := h.stream.window + n.toNat } }) = e := by
      simp [TsEndpoint.modify, List.modify_eq_self (List.getElem?_eq_none_iff.mp present)]
    rw [same]
    exact good
  | some h =>
    refine good.replace present (modify_moves present _ rfl rfl rfl) rfl
      (List.append_nil _).symm id (by simp) ?_
    intro own heard fine _
    exact fine.goes (List.append_nil _).symm (Or.inl rfl) (by simp [Ended]) id fine.drained
      Or.inl id (by simp)

theorem TsGood.write (good : TsGood client ended received e) (r : Nat) (data : Bytes) :
    TsGood client ended received (e.write r data) := by
  unfold TsEndpoint.write
  dsimp only
  split
  · exact good
  next h present =>
    split
    · exact good.same rfl rfl rfl
    next notClosed =>
      split
      · exact good.same rfl rfl rfl
      next notEnded =>
        refine TsGood.flush ?_ r
        refine good.replace present (modify_moves present (fun h =>
          { h with
            stream :=
              { h.stream with
                queue := h.stream.queue ++ [{ data := data, promise := e.promises }] }
            accepted := h.accepted ++ data }) rfl rfl rfl) rfl
          (List.append_nil _).symm id (by simp) ?_
        intro own heard fine _
        refine fine.goes (List.append_nil _).symm (Or.inl rfl) (by simp [Ended]) id ?_
          Or.inl id (by simp)
        rintro (shut | shut)
        · exact absurd shut notEnded
        · exact absurd shut notClosed

theorem TsGood.endSend (good : TsGood client ended received e)
    (drained : ∀ h, e.objects[r]? = some h → h.stream.sendClosed = false →
      h.stream.closed = false → h.stream.queue = []) :
    TsGood client ended received (e.endSend r) := by
  unfold TsEndpoint.endSend
  split
  · exact good
  next h present =>
    split
    · exact good
    next working =>
      rw [not_or, Bool.not_eq_true, Bool.not_eq_true] at working
      have shut : (e.modify r TsHandle.closeSend).objects[r]? = some h.closeSend := by
        simp [TsEndpoint.modify, present]
      have sent := sendFrame_moves shut (show FrameType.fEnd.OfStream = true from rfl) []
      refine good.replace present (Moves.of_modify sent rfl) rfl rfl id ?_ ?_
      · simp [Frame.isAbout, FrameType.OfStream, TsHandle.streamID, TsHandle.closeSend]
      · intro own heard fine _
        refine fine.goes rfl (Or.inr ⟨_, rfl, by simp, by simp⟩) (fun _ => rfl)
          (fun _ => rfl) (fun _ => drained h present working.1 working.2) Or.inl id
          (by simp [WasReset])

/-- A stream as `teardown` leaves it. -/
def TsHandle.left (h : TsHandle) : TsHandle := if h.stream.closed then h else h.torn

@[simp] theorem left_closed (h : TsHandle) : h.left.stream.closed = true := by
  unfold TsHandle.left
  split
  · assumption
  · rfl

@[simp] theorem left_id (h : TsHandle) : h.left.stream.id = h.stream.id := by
  unfold TsHandle.left
  split <;> rfl

@[simp] theorem left_emitted (h : TsHandle) : h.left.emitted = h.emitted := by
  unfold TsHandle.left
  split <;> rfl

@[simp] theorem left_sendClosed (h : TsHandle) :
    h.left.stream.sendClosed = h.stream.sendClosed := by
  unfold TsHandle.left
  split <;> rfl

theorem left_queue (drained : h.stream.closed = true → h.stream.queue = []) :
    h.left.stream.queue = [] := by
  unfold TsHandle.left
  split
  next closed => exact drained closed
  · rfl

/-- A stream is torn down and forgotten after what it has sent. -/
theorem Moves.leave (moves : Moves e r h now out after) (err : Option TsErr)
    (kept : after.session.closed = true ∧ after.out = e.out ∨
      after.session.streams = e.session.streams) :
    Moves e r h now.left out ((after.teardown err r).removeStream h.stream.id) := by
  have shut : after.session.closed = true ∧ after.out = e.out →
      Moves e r h now.left out ((after.teardown err r).removeStream h.stream.id) := fun silent =>
    Or.inl (by simpa [TsEndpoint.removeStream] using silent)
  rcases moves with silent | ⟨opened, replaced, nextId, -, out⟩
  · exact shut silent
  · rcases kept with silent | kept
    · exact shut silent
    · refine Or.inr ⟨opened, ?_, by simpa [TsEndpoint.removeStream] using nextId,
        Or.inr ⟨by simp [TsEndpoint.removeStream, kept], left_closed now⟩,
        by simpa [TsEndpoint.removeStream] using out⟩
      have here : after.objects[r]? = some now := by rw [replaced, if_pos rfl]
      intro i
      simp only [TsEndpoint.removeStream, TsEndpoint.teardown, here, TsHandle.left]
      split
      · exact replaced i
      have other := replaced i
      by_cases same : i = r
      · subst same
        simp [TsEndpoint.modify, here]
      · rw [if_neg same] at other
        simp [TsEndpoint.modify, same, Ne.symm same, other]

theorem sendFrame_kept (e : TsEndpoint) (sender : Option Nat) (type : FrameType) (id : Nat)
    (payload : Bytes) :
    (e.sendFrame sender type id payload).session.closed = true ∧
        (e.sendFrame sender type id payload).out = e.out ∨
      (e.sendFrame sender type id payload).session.streams = e.session.streams :=
  (sendFrame_cases e sender type id payload).imp_right fun sent => by rw [sent.2.1]

/-- A stream that is left as it is goes nowhere. -/
theorem moves_self (present : e.objects[r]? = some h) :
    Moves e r h h [] e := by
  by_cases closed : e.session.closed = true
  · exact Or.inl ⟨closed, rfl⟩
  refine Or.inr ⟨by simpa using closed, fun i => ?_, rfl, Or.inl rfl, (List.append_nil _).symm⟩
  split
  next same => rw [same, present]
  · rfl

theorem TsGood.close (good : TsGood client ended received e) {r : Nat}
    (heard : ∀ h, e.objects[r]? = some h → r ∈ ended ∨ h.stream.closed = true) :
    TsGood client ended received (e.close r) := by
  unfold TsEndpoint.close
  split
  · exact good
  next h present =>
    have cause := heard h present
    unfold TsEndpoint.endSend
    simp only [present]
    split
    · refine good.replace present ((moves_self present).leave none (Or.inr rfl))
        (left_id h) (by simp) (by simp) (by simp) ?_
      intro own heard fine ended
      exact fine.goes (by simp) (Or.inl rfl) (by simp [Ended]) (by simp)
        (fun _ => left_queue fun closed => fine.drained (Or.inr closed))
        (fun _ => cause.symm.imp_right fun member => Or.inl (ended member)) (by simp) (by simp)
    have shut : (e.modify r TsHandle.closeSend).objects[r]? = some h.closeSend := by
      simp [TsEndpoint.modify, present]
    have sent := Moves.of_modify
      (sendFrame_moves shut (show FrameType.fEnd.OfStream = true from rfl) []) rfl
    refine good.replace present
      (sent.leave none (sendFrame_kept (e.modify r TsHandle.closeSend) _ _ _ _))
      (left_id _) (by simp [TsHandle.closeSend]) (by simp) ?_ ?_
    · simp [Frame.isAbout, FrameType.OfStream, TsHandle.streamID, TsHandle.closeSend]
    · intro own heard fine ended
      exact fine.goes (left_emitted _) (Or.inr ⟨_, rfl, by simp, by simp⟩)
        (by simp [TsHandle.closeSend]) (by simp [TsHandle.closeSend])
        (fun _ => left_queue fun closed => fine.drained (Or.inr closed))
        (fun _ => cause.symm.imp_right fun member => Or.inl (ended member)) (by simp) (by simp)

theorem TsGood.reset (good : TsGood client ended received e) (r : Nat) (reason : Bytes) :
    TsGood client ended received (e.reset r reason) := by
  unfold TsEndpoint.reset
  split
  · exact good
  next h present =>
    dsimp only
    split
    next closed =>
      refine good.replace present ((moves_self present).leave _ (Or.inr rfl))
        (left_id h) (by simp) (by simp) (by simp) ?_
      intro own heard fine _
      exact fine.goes (by simp) (Or.inl rfl) (by simp [Ended]) (by simp)
        (fun _ => left_queue fun closed => fine.drained (Or.inr closed))
        (fun _ => Or.inl closed) (by simp) (by simp)
    · have sent := sendFrame_moves present (show FrameType.fReset.OfStream = true from rfl) reason
      refine good.replace present (sent.leave _ (sendFrame_kept e _ _ _ _))
        (left_id _) (by simp) (by simp) ?_ ?_
      · simp [Frame.isAbout, FrameType.OfStream]
      · intro own heard fine _
        exact fine.goes (left_emitted _) (Or.inr ⟨_, rfl, by simp, by simp⟩) (by simp [Ended])
          (by simp)
          (fun _ => left_queue fun closed => fine.drained (Or.inr closed))
          (fun _ => Or.inr (Or.inr ⟨_, List.mem_singleton_self _, rfl⟩)) (by simp) (by simp)

theorem TsGood.closeWithErr (good : TsGood client ended received e) (err : Option TsErr) :
    TsGood client ended received (e.closeWithErr err) :=
  good.shut (closeWithErr_closed e err) (closeWithErr_out e err)

/-! ### New streams -/

/-- A new stream: `now` is the next object, under an id that none has. -/
theorem TsAlive.add {now : TsHandle} {out later : List Frame}
    (alive : TsAlive client ended received e)
    (fresh : ∀ (r : Nat) h, e.objects[r]? = some h → h.stream.id ≠ now.stream.id)
    (small : now.stream.id < 2 ^ 32)
    (objects : Replaces e.objects e.objects.length now after.objects)
    (parity : after.session.nextId % 2 = if client then 1 else 0)
    (nextId : e.session.nextId ≤ after.session.nextId)
    (before : Own client now.streamID → now.stream.id < after.session.nextId)
    (streams : after.session.streams =
      e.session.streams.insert now.stream.id e.objects.length)
    (sends : frames after.out = frames e.out ++ out) (emitted : now.emitted = out)
    (aboutIt : ∀ frame ∈ out, frame.isAbout now.streamID = true)
    (hears : ∀ frame ∈ later, ∀ other ≠ now.streamID, frame.isAbout other = false)
    (fine : about now.streamID received = [] →
      TsFine (Own client now.streamID) now (about now.streamID (received ++ later))) :
    TsAlive client ended (received ++ later) after := by
  have absent : e.objects[e.objects.length]? = none := by simp
  have freshID : ∀ (r : Nat) h, e.objects[r]? = some h → h.streamID ≠ now.streamID := by
    intro r h found same
    have nats := congrArg UInt32.toNat same
    simp only [TsHandle.streamID, UInt32.toNat_ofNat'] at nats
    rw [Nat.mod_eq_of_lt (alive.small found), Nat.mod_eq_of_lt small] at nats
    exact fresh r h found nats
  obtain ⟨unsent, unheard⟩ := alive.silent freshID
  have each : ∀ {i : Nat} {h' : TsHandle}, after.objects[i]? = some h' →
      i = e.objects.length ∧ h' = now ∨
        e.objects[i]? = some h' ∧ h'.streamID ≠ now.streamID ∧ i ≠ e.objects.length := by
    intro i h' found
    rw [objects i] at found
    split at found
    next same => exact Or.inl ⟨same, (Option.some.inj found).symm⟩
    next other => exact Or.inr ⟨found, freshID i h' found, other⟩
  have old : ∀ {i : Nat} {h' : TsHandle}, e.objects[i]? = some h' →
      after.objects[i]? = some h' := by
    intro i h' found
    rw [objects i, if_neg, found]
    rintro rfl
    rw [absent] at found
    cases found
  have heardElsewhere : ∀ {other}, other ≠ now.streamID →
      about other (received ++ later) = about other received := by
    intro other apart
    rw [about_append, about_eq_nil fun frame member => hears frame member other apart,
      List.append_nil]
  have sentElsewhere : ∀ {other}, other ≠ now.streamID →
      about other (frames after.out) = about other (frames e.out) := by
    intro other apart
    rw [sends, about_append,
      about_eq_nil fun frame member => Frame.isAbout_ne (aboutIt frame member) apart,
      List.append_nil]
  constructor
  case parity => exact parity
  case small =>
    intro i h' found
    rcases each found with ⟨-, rfl⟩ | ⟨old, -, -⟩
    · exact small
    · exact alive.small old
  case unique =>
    intro i other h' h'' here there same
    rcases each here with ⟨rfl, rfl⟩ | ⟨old, -, -⟩ <;>
      rcases each there with ⟨rfl, rfl⟩ | ⟨old', -, -⟩
    · rfl
    · exact absurd same.symm (fresh _ _ old')
    · exact absurd same (fresh _ _ old)
    · exact alive.unique old old' same
  case before =>
    intro i h' found own
    rcases each found with ⟨-, rfl⟩ | ⟨old, -, -⟩
    · exact before own
    · exact Nat.lt_of_lt_of_le (alive.before old own) nextId
  case registered =>
    intro other r found
    rw [streams] at found
    by_cases isID : other = now.stream.id
    · subst isID
      rw [AList.lookup_insert, Option.some.injEq] at found
      subst found
      exact ⟨now, by rw [objects, if_pos rfl], rfl⟩
    · rw [AList.lookup_insert_ne isID] at found
      obtain ⟨h', there, same⟩ := alive.registered found
      exact ⟨h', old there, same⟩
  case kept =>
    intro i h' found notClosed
    rw [streams]
    rcases each found with ⟨rfl, rfl⟩ | ⟨there, -, -⟩
    · rw [AList.lookup_insert]
    · rw [AList.lookup_insert_ne (fresh _ _ there)]
      exact alive.kept there notClosed
  case logged =>
    intro i h' found
    rcases each found with ⟨-, rfl⟩ | ⟨there, apart, -⟩
    · rw [sends, about_append, unsent, emitted, List.nil_append, about,
        List.filter_eq_self.mpr aboutIt]
    · rw [sentElsewhere apart]
      exact alive.logged there
  case silent =>
    intro other none
    have apart : other ≠ now.streamID := fun same =>
      none e.objects.length now (by rw [objects, if_pos rfl]) same.symm
    rw [sentElsewhere apart, heardElsewhere apart]
    exact alive.silent fun i h' found => none i h' (old found)
  case fine =>
    intro i h' found
    rcases each found with ⟨-, rfl⟩ | ⟨there, apart, -⟩
    · exact fine unheard
    · rw [heardElsewhere apart]
      exact alive.fine there
  case heardEnd =>
    intro i member
    obtain ⟨h', there, ends⟩ := alive.heardEnd member
    exact ⟨h', old there, by rwa [heardElsewhere (freshID i h' there)]⟩

theorem own_streamID (small : h.stream.id < 2 ^ 32) :
    Own client h.streamID ↔ h.stream.id % 2 = if client then 1 else 0 := by
  rw [Own, TsHandle.streamID, UInt32.toNat_ofNat', Nat.mod_eq_of_lt small]

/-- A stream that was just opened by this side. -/
def TsHandle.announced (stream : TsStream) : TsHandle :=
  { stream
    emitted :=
      [{ type := .fOpen, streamID := UInt32.ofNat stream.id, payload := stream.openMeta }] }

theorem fine_announced {own : Prop} {stream : TsStream} (isOwn : own)
    (queue : stream.queue = []) (closed : stream.closed = false) :
    TsFine own (TsHandle.announced stream) [] where
  opened _ := ⟨⟨_, List.mem_singleton_self _, rfl⟩, (@allowed_concat _ OpensFirst [] _).mpr
    ⟨allowed_nil _, fun notOpen => absurd rfl notOpen⟩⟩
  remote remote := absurd isOwn remote
  opens := by simp [TsHandle.announced]
  owns _ := isOwn
  order := (@allowed_concat _ EndsLast [] _).mpr ⟨allowed_nil _, by simp [EndsLast]⟩
  ended := by simp [Ended, TsHandle.announced]
  drained _ := queue
  torn := by simp [TsHandle.announced, closed]
  resets := by simp [WasReset, TsHandle.announced]

theorem TsGood.openStream (good : TsGood client ended received e) (openMeta : Bytes)
    (room : e.session.nextId < 2 ^ 32) :
    TsGood client ended received (e.openStream openMeta) := by
  unfold TsEndpoint.openStream
  split
  · exact good
  next opened =>
    have alive := good.alive (by simpa using opened)
    dsimp only
    rcases sendFrame_cases
      { e.create e.session.nextId openMeta with
        session :=
          { (e.create e.session.nextId openMeta).session with
            nextId := e.session.nextId + 2 } }
      (some e.objects.length) .fOpen e.session.nextId openMeta with
      ⟨closed, out⟩ | ⟨-, session, objects, out⟩
    · exact good.shut closed out
    · have parity := alive.parity
      have own : Own client (UInt32.ofNat e.session.nextId) := by
        rw [Own, UInt32.toNat_ofNat', Nat.mod_eq_of_lt room]
        exact parity
      have added := @TsAlive.add client ended received e _
        (.announced { id := e.session.nextId, openMeta, window := e.session.initialWindow })
        [{ type := .fOpen, streamID := UInt32.ofNat e.session.nextId, payload := openMeta }]
        [] alive ?fresh room (by rw [objects]; exact (replaces_append _ _).modify _)
        (by rw [session]; dsimp only; omega) (by rw [session]; exact Nat.le_add_right _ 2)
        (by rw [session]; exact fun _ => Nat.lt_add_of_pos_right (by omega))
        (by rw [session]; rfl) ?sends rfl
        (by simp [Frame.isAbout, FrameType.OfStream, TsHandle.streamID, TsHandle.announced])
        (by simp) ?fine
      · rw [List.append_nil] at added
        exact added.good
      case fresh =>
        intro r h found same
        have same : h.stream.id = e.session.nextId := same
        have below := alive.before found
          ((own_streamID (alive.small found)).mpr (by rw [same]; exact parity))
        omega
      case sends =>
        rw [out, frames_append, frames_encodeFrame (by simp)]
        rfl
      case fine =>
        intro unheard
        rw [List.append_nil, unheard]
        exact fine_announced own rfl rfl

/-! ### Messages that come in -/

theorem Speaks.more {own : Prop} {sent received : List Frame} (speaks : Speaks own sent received)
    (later : List Frame) : Speaks own sent (received ++ later) :=
  { speaks with answers := fun remote some => (speaks.answers remote some).append later }

/-- What comes in on a closed session is for no stream. -/
theorem TsGood.deaf (good : TsGood client ended received e) (closed : e.session.closed = true)
    (later : List Frame) (ended' : List Nat) : TsGood client ended' (received ++ later) e where
  speaks id := by
    rw [about_append]
    exact (good.speaks id).more _
  alive opened := by rw [closed] at opened; cases opened

theorem TsFine.hear {own : Prop} {heard : List Frame} {frame : Frame}
    (fine : TsFine own h heard) (resets : frame.type = .fReset → h.stream.closed = true) :
    TsFine own h (heard ++ [frame]) :=
  { fine with
    remote := fun remote => (fine.remote remote).append _
    torn := fun closed => (fine.torn closed).imp (·.append _)
      (Or.imp_right (·.mono (List.prefix_append ..)))
    resets := by
      rw [wasReset_append]
      rintro (sent | heard | ⟨other, member, isReset⟩)
      · exact fine.resets (Or.inl sent)
      · exact fine.resets (Or.inr heard)
      · exact resets (List.mem_singleton.mp member ▸ isReset) }

/-- A frame other than OPEN is for a stream that there is or was. -/
theorem TsAlive.known {frame : Frame} {id : UInt32} (alive : TsAlive client ended received e)
    (hears : Hears (Own client id) (about id (frames e.out)) (about id (received ++ [frame])))
    (isAbout : frame.isAbout id = true) (notOpen : frame.type ≠ .fOpen) :
    ∃ (r : Nat) (h : TsHandle), e.objects[r]? = some h ∧ h.streamID = id := by
  by_contra unknown
  obtain ⟨unsent, unheard⟩ := alive.silent fun r h found same => unknown ⟨r, h, found, same⟩
  have arrived : about id (received ++ [frame]) = [frame] := by
    rw [about_append, unheard]
    simp [about, isAbout]
  rw [arrived, unsent] at hears
  by_cases own : Own client id
  · obtain ⟨_, member, -⟩ := hears.announced own (by simp)
    cases member
  · obtain ⟨_, member, -⟩ := hears.opensFirst own [] frame (List.prefix_refl _) notOpen
    cases member

/-- A frame comes in that opens no stream and resets none that is open. -/
theorem TsAlive.hear {frame : Frame} (alive : TsAlive client ended received e)
    (hears : ∀ id, Hears (Own client id) (about id (frames e.out))
      (about id (received ++ [frame])))
    (notOpen : frame.type ≠ .fOpen)
    (resets : frame.type = .fReset → ∀ (r : Nat) h, e.objects[r]? = some h →
      h.streamID = frame.streamID → h.stream.closed = true) :
    TsAlive client ended (received ++ [frame]) e :=
  { alive with
    silent := by
      intro id none
      refine ⟨(alive.silent none).1, ?_⟩
      rw [about_append, (alive.silent none).2, List.nil_append, about_eq_nil]
      intro other member
      obtain rfl := List.mem_singleton.mp member
      by_contra isAbout
      obtain ⟨r, h, found, same⟩ := alive.known (hears id) (by simpa using isAbout) notOpen
      exact none r h found same
    fine := by
      intro r h found
      rw [about_append]
      by_cases isAbout : frame.isAbout h.streamID = true
      · have one : about h.streamID [frame] = [frame] := by simp [about, isAbout]
        rw [one]
        refine (alive.fine found).hear fun isReset => resets isReset r h found ?_
        simp only [Frame.isAbout, Bool.and_eq_true, beq_iff_eq] at isAbout
        exact isAbout.2.symm
      · have none : about h.streamID [frame] = [] := about_eq_nil (by simpa using isAbout)
        rw [none, List.append_nil]
        exact alive.fine found
    heardEnd := by
      intro r member
      obtain ⟨h, found, ends⟩ := alive.heardEnd member
      refine ⟨h, found, ?_⟩
      rw [about_append]
      exact ends.append _ }

/-- A stream that is no longer registered was torn down. -/
theorem TsAlive.lookup_none {frame : Frame} (alive : TsAlive client ended received e)
    (none : e.session.streams.lookup frame.streamID.toNat = none) (r : Nat) (h : TsHandle)
    (found : e.objects[r]? = some h) (same : h.streamID = frame.streamID) :
    h.stream.closed = true := by
  by_contra notClosed
  have kept := alive.kept found (by simpa using notClosed)
  have id : h.stream.id = frame.streamID.toNat := by
    rw [← same, TsHandle.streamID, UInt32.toNat_ofNat', Nat.mod_eq_of_lt (alive.small found)]
  rw [id, none] at kept
  cases kept

/-- A frame comes in that opens no stream and resets none that is registered. -/
theorem TsGood.hear {frame : Frame} (good : TsGood client ended received e)
    (hears : ∀ id, Hears (Own client id) (about id (frames e.out))
      (about id (received ++ [frame])))
    (notOpen : frame.type ≠ .fOpen)
    (resets : frame.type = .fReset →
      e.session.streams.lookup frame.streamID.toNat = none) :
    TsGood client ended (received ++ [frame]) e := by
  by_cases closed : e.session.closed = true
  · exact good.deaf closed _ _
  · have alive := good.alive (by simpa using closed)
    exact (alive.hear hears notOpen fun isReset => alive.lookup_none (resets isReset)).good

/-- The other end opens a stream. -/
theorem TsGood.accepts {frame : Frame} (good : TsGood client ended received e)
    (foreign : Foreign client (received ++ [frame])) (isOpen : frame.type = .fOpen) :
    TsGood client ended (received ++ [frame]) (e.create frame.streamID.toNat frame.payload) := by
  by_cases closed : e.session.closed = true
  · exact (good.deaf closed _ _).shut closed rfl
  · have alive := good.alive (by simpa using closed)
    have opens : frame.opens frame.streamID = true := by simp [Frame.opens, isOpen]
    have remote : ¬ Own client frame.streamID :=
      foreign.2 (by simp [List.countP_append, opens])
    have isAbout : frame.isAbout frame.streamID = true := by
      simp [Frame.isAbout, isOpen, FrameType.OfStream]
    have streamID : TsHandle.streamID
        { stream :=
            { id := frame.streamID.toNat, openMeta := frame.payload
              window := e.session.initialWindow } } = frame.streamID := by
      simp [TsHandle.streamID]
    refine (@TsAlive.add client ended received e
      (e.create frame.streamID.toNat frame.payload)
      { stream :=
          { id := frame.streamID.toNat, openMeta := frame.payload
            window := e.session.initialWindow } } [] [frame] alive ?fresh
      frame.streamID.toNat_lt (replaces_append _ _) alive.parity (Nat.le_refl _) ?own rfl
      (List.append_nil _).symm rfl (by simp) ?hears ?fine).good
    case fresh =>
      intro r h found same
      have same : h.streamID = frame.streamID := by
        rw [TsHandle.streamID, same]
        exact streamID
      obtain ⟨other, member, kind⟩ := (alive.fine found).remote (by rw [same]; exact remote)
      rw [same] at member
      have earlier : 0 < received.countP (Frame.opens frame.streamID) := by
        obtain ⟨inAll, isAbout⟩ := List.mem_filter.mp member
        refine List.countP_pos_iff.mpr ⟨other, inAll, ?_⟩
        simp only [Frame.isAbout, Bool.and_eq_true, beq_iff_eq] at isAbout
        simp [Frame.opens, kind, isAbout.2]
      have once := foreign.1 frame.streamID
      simp only [List.countP_append, List.countP_cons, opens, if_true] at once
      omega
    case own =>
      rw [streamID]
      exact fun own => absurd own remote
    case hears =>
      intro other member id apart
      obtain rfl := List.mem_singleton.mp member
      exact Frame.isAbout_ne isAbout (by rwa [streamID] at apart)
    case fine =>
      intro unheard
      rw [streamID] at unheard ⊢
      have heard : about frame.streamID (received ++ [frame]) = [frame] := by
        rw [about_append, unheard]
        simp [about, isAbout]
      rw [heard]
      exact
        { opened := fun own => absurd own remote
          remote := fun _ => ⟨frame, List.mem_singleton_self _, isOpen⟩
          opens := by simp
          owns := by simp [Opened]
          order := allowed_nil _
          ended := by simp [Ended]
          drained := fun _ => rfl
          torn := by simp
          resets := by simp [WasReset, isOpen] }

/-- The other end resets a stream. -/
theorem TsGood.peerReset {frame : Frame} (good : TsGood client ended received e)
    (isReset : frame.type = .fReset)
    (found : e.session.streams.lookup frame.streamID.toNat = some r) :
    TsGood client ended (received ++ [frame])
      ((e.teardown (some .peerReset) r).removeStream frame.streamID.toNat) := by
  by_cases closed : e.session.closed = true
  · refine (good.deaf closed _ _).shut ?_ ?_ <;> simp [TsEndpoint.removeStream, closed]
  · have alive := good.alive (by simpa using closed)
    obtain ⟨h, present, id⟩ := alive.registered found
    have streamID : h.streamID = frame.streamID := by simp [TsHandle.streamID, id]
    have isAbout : frame.isAbout h.streamID = true := by
      simp [Frame.isAbout, isReset, FrameType.OfStream, streamID]
    have left := (moves_self present).leave (some .peerReset) (Or.inr rfl)
    rw [id] at left
    rcases left with ⟨shut, -⟩ | ⟨-, objects, nextId, streams, sends⟩
    · exact absurd shut (by simpa [TsEndpoint.removeStream] using closed)
    · refine (alive.replace present objects nextId streams sends (left_id h) (by simp) (by simp)
        (by simp) ?_ ?_).good
      · intro other member id apart
        obtain rfl := List.mem_singleton.mp member
        exact Frame.isAbout_ne isAbout apart
      · intro fine
        have heard : about h.streamID (received ++ [frame]) =
            about h.streamID received ++ [frame] := by
          rw [about_append]
          simp [about, isAbout]
        rw [heard]
        have wasReset : WasReset (about h.streamID received ++ [frame]) :=
          ⟨frame, by simp, isReset⟩
        exact
          { opened := by rw [left_emitted]; exact fine.opened
            remote := fun remote => (fine.remote remote).append _
            opens := by rw [left_emitted]; exact fine.opens
            owns := by rw [left_emitted]; exact fine.owns
            order := by rw [left_emitted]; exact fine.order
            ended := by rw [left_emitted, left_sendClosed]; exact fine.ended
            drained := fun _ => left_queue fun closed => fine.drained (Or.inr closed)
            torn := fun _ => Or.inr (Or.inr wasReset)
            resets := fun _ => left_closed h }

/-- END calls `onEnd` of the registered stream. -/
theorem TsGood.hearEnd {frame : Frame}
    (good : TsGood client ended (received ++ [frame]) e) (isEnd : frame.type = .fEnd) :
    TsGood client ((e.session.streams.lookup frame.streamID.toNat).toList ++ ended)
      (received ++ [frame]) e where
  speaks := good.speaks
  alive opened :=
    { good.alive opened with
      heardEnd := by
        intro r member
        have alive := good.alive opened
        rcases List.mem_append.mp member with here | before
        · have found : e.session.streams.lookup frame.streamID.toNat = some r := by
            simpa using here
          obtain ⟨h, present, id⟩ := alive.registered found
          refine ⟨h, present, frame, ?_, isEnd⟩
          rw [about_append]
          simp [about, Frame.isAbout, isEnd, FrameType.OfStream, TsHandle.streamID, id]
        · exact alive.heardEnd before }

/-- A message comes in. -/
theorem TsGood.receive {n : TsNode} {message : Bytes}
    (good : TsGood client n.ended received n.endpoint)
    (foreign : Foreign client (received ++ frames [message]))
    (hears : ∀ id, Hears (Own client id) (about id (frames n.endpoint.out))
      (about id (received ++ frames [message]))) :
    TsGood client (n.onEnds message) (received ++ frames [message])
      (n.endpoint.dispatch message) := by
  unfold TsEndpoint.dispatch TsNode.onEnds
  cases decoded : decodeFrame message with
  | none =>
    rw [frames_of_garbage decoded, List.append_nil]
    exact good
  | some frame =>
    rw [frames_of_decode decoded] at foreign hears ⊢
    obtain ⟨type, streamID, payload⟩ := frame
    have heard : type ≠ .fOpen → (type = .fReset →
        n.endpoint.session.streams.lookup streamID.toNat = none) →
        TsGood client n.ended (received ++ [⟨type, streamID, payload⟩]) n.endpoint :=
      good.hear hears
    cases type with
    | fOpen => exact good.accepts foreign rfl
    | fReset =>
      dsimp only
      cases found : n.endpoint.session.streams.lookup streamID.toNat with
      | none => exact heard (by simp) fun _ => found
      | some r => exact good.peerReset rfl found
    | fEnd => exact (heard (by simp) (by simp)).hearEnd rfl
    | fData =>
      dsimp only
      split
      · exact heard (by simp) (by simp)
      · exact (heard (by simp) (by simp)).onData _ _
    | fCredit =>
      dsimp only
      split
      · exact heard (by simp) (by simp)
      · exact (heard (by simp) (by simp)).onCredit _ _
    | fPing => exact (heard (by simp) (by simp)).sendConn (by simp) rfl _ _
    | _ => exact heard (by simp) (by simp)

/-- A call, the timer, or the end of the transport. -/
theorem TsGood.event {n : TsNode} {event : TsEvent}
    (good : TsGood client n.ended received n.endpoint) (courteous : event.Courteous n)
    (notMessage : ∀ data, event ≠ .message data) :
    TsGood client n.ended received (tsStep n.endpoint event) := by
  cases event with
  | openStream openMeta => exact good.openStream openMeta courteous
  | write r data => exact good.write r data
  | endSend r => exact good.endSend courteous
  | reset r reason => exact good.reset r reason
  | close r => exact good.close courteous
  | signal r payload => exact good.signal r payload
  | closeSession => exact good.closeWithErr none
  | ping => exact good.sendConn (by simp) rfl _ _
  | message data => exact absurd rfl (notMessage data)
  | transportClosed err => exact good.closeWithErr err

end Good

/-! ### What a step sends -/

section Sends

variable {e base : TsEndpoint}

theorem sendFrame_grows (same : base.out = e.out) (sender : Option Nat) (type : FrameType)
    (id : Nat) (payload : Bytes) : e.out <+: (base.sendFrame sender type id payload).out := by
  rw [← same]
  rcases sendFrame_cases base sender type id payload with ⟨-, out⟩ | ⟨-, -, -, out⟩
  · rw [out]
  · rw [out]
    exact List.prefix_append ..

theorem flushLoop_grows (fuel : Nat) (e : TsEndpoint) (r : Nat) :
    e.out <+: (TsEndpoint.flushLoop fuel e r).out := by
  induction fuel generalizing e with
  | zero => exact List.prefix_refl _
  | succ fuel hypothesis =>
    unfold TsEndpoint.flushLoop
    split
    · exact List.prefix_refl _
    next h _ =>
      split
      · exact List.prefix_refl _
      next w rest _ =>
        split
        · exact List.prefix_refl _
        refine List.IsPrefix.trans ?_ (hypothesis _)
        rw [flushRound_out]
        exact sendFrame_grows (by rfl) _ _ _ _

theorem flush_grows (same : base.out = e.out) (r : Nat) : e.out <+: (base.flush r).out := by
  rw [← same]
  unfold TsEndpoint.flush
  split
  · exact List.prefix_refl _
  · exact flushLoop_grows ..

theorem endSend_grows (e : TsEndpoint) (r : Nat) : e.out <+: (e.endSend r).out := by
  unfold TsEndpoint.endSend
  split
  · exact List.prefix_refl _
  split
  · exact List.prefix_refl _
  · exact sendFrame_grows (by rfl) _ _ _ _

theorem dispatch_grows (e : TsEndpoint) (message : Bytes) : e.out <+: (e.dispatch message).out := by
  unfold TsEndpoint.dispatch
  split
  · exact List.prefix_refl _
  dsimp only
  split
  · exact sendFrame_grows (by rfl) _ _ _ _
  · exact List.prefix_refl _
  · split
    · exact List.prefix_refl _
    unfold TsEndpoint.onData
    split
    · exact List.prefix_refl _
    split
    · exact List.prefix_refl _
    dsimp only
    split
    · exact sendFrame_grows (by rfl) _ _ _ _
    · exact List.prefix_refl _
  · split
    · exact List.prefix_refl _
    · simp [TsEndpoint.removeStream]
  · split
    · exact List.prefix_refl _
    · exact flush_grows (by rfl) _
  all_goals exact List.prefix_refl _

/-- What was sent stays sent. -/
theorem tsStep_grows (e : TsEndpoint) (event : TsEvent) : e.out <+: (tsStep e event).out := by
  cases event with
  | openStream openMeta =>
    simp only [tsStep, TsEndpoint.openStream]
    split
    · exact List.prefix_refl _
    · exact sendFrame_grows (by rfl) _ _ _ _
  | write r data =>
    simp only [tsStep, TsEndpoint.write]
    split
    · exact List.prefix_refl _
    split
    · exact List.prefix_refl _
    split
    · exact List.prefix_refl _
    · exact flush_grows (by rfl) _
  | endSend r => exact endSend_grows e r
  | reset r reason =>
    simp only [tsStep, TsEndpoint.reset]
    split
    · exact List.prefix_refl _
    simp only [TsEndpoint.removeStream, teardown_out]
    split
    · exact List.prefix_refl _
    · exact sendFrame_grows (by rfl) _ _ _ _
  | close r =>
    simp only [tsStep, TsEndpoint.close]
    split
    · exact List.prefix_refl _
    · simp only [TsEndpoint.removeStream, teardown_out]
      exact endSend_grows e r
  | signal r payload =>
    simp only [tsStep, TsEndpoint.signal]
    split
    · exact List.prefix_refl _
    · exact sendFrame_grows (by rfl) _ _ _ _
  | ping => exact sendFrame_grows (by rfl) _ _ _ _
  | message data => exact dispatch_grows e data
  | _ => simp [tsStep]

end Sends

/-! ### The contract -/

/-- The invariant of a TypeScript session. -/
def TsInv (client : Bool) (n : TsNode) (sent received : List Bytes) : Prop :=
  sent = n.endpoint.out ∧ TsGood client n.ended (frames received) n.endpoint

theorem append_drop {earlier later : List Bytes} (grows : earlier <+: later) :
    earlier ++ later.drop earlier.length = later :=
  (List.prefix_iff_eq_append.mp grows)

theorem ts_contract (client : Bool) :
    Contract (tsMachine.party fun n event => event.Courteous n) (TsInv client)
      (Around client) where
  act := by
    rintro n after sent received out ⟨rfl, good⟩ around ⟨event, courteous, acted⟩
    have step : (∀ data, event ≠ .message data) ∧
        after = { n with endpoint := tsStep n.endpoint event } ∧
          out = (tsStep n.endpoint event).out.drop n.endpoint.out.length := by
      cases event <;> simp_all [tsMachine, TsNode.act]
    obtain ⟨notMessage, rfl, rfl⟩ := step
    exact ⟨append_drop (tsStep_grows n.endpoint event), good.event courteous notMessage⟩
  receive := by
    rintro n after sent received out message ⟨rfl, good⟩ ⟨foreign, strands⟩ moved
    obtain ⟨rfl, rfl⟩ : after =
        { endpoint := n.endpoint.dispatch message, ended := n.onEnds message } ∧
          out = (n.endpoint.dispatch message).out.drop n.endpoint.out.length := by
      simpa [tsMachine, Machine.party, TsNode.receive, tsStep, eq_comm] using moved
    rw [frames_append] at foreign
    refine ⟨append_drop (dispatch_grows n.endpoint message), ?_⟩
    rw [frames_append]
    refine good.receive foreign fun id => ?_
    have hears := (strands id).1
    rwa [frames_append] at hears

theorem ts_start (opts : TsOptions) (throws : Nat → Bool) :
    TsInv opts.client { endpoint := newTsEndpoint opts throws } [] [] := by
  refine ⟨rfl, TsAlive.good ?_⟩
  constructor <;> simp [newTsEndpoint, newTsSession]
  cases opts.client <;> rfl

/-- A TypeScript session is what the other end may assume. -/
theorem TsInv.around {client : Bool} {sent received : List Bytes}
    (rely : Rely (TsInv (!client)) sent received) : Around client sent received := by
  obtain ⟨n, peerSent, peerReceived, ⟨rfl, good⟩, fromUs, toUs⟩ := rely
  have arrives := frames_mono toUs
  have speaks := good.speaks
  have opens : ∀ id, (frames received).countP (Frame.opens id) ≤
      (about id (frames n.endpoint.out)).countP (fun frame => frame.type == .fOpen) := by
    intro id
    refine (arrives.sublist.countP_le).trans (le_of_eq ?_)
    rw [about, List.countP_filter]
    refine List.countP_congr fun frame _ => ?_
    cases kind : frame.type <;> simp [Frame.opens, Frame.isAbout, kind, FrameType.OfStream]
  refine ⟨⟨fun id => (opens id).trans (speaks id).opens, fun {id} some => ?_⟩, fun id => ⟨?_, ?_⟩⟩
  · have opened : Opened (about id (frames n.endpoint.out)) := by
      obtain ⟨frame, member, isOpen⟩ := List.countP_pos_iff.mp (Nat.lt_of_lt_of_le some (opens id))
      exact ⟨frame, member, by simpa using isOpen⟩
    exact not_own_iff.mpr ((speaks id).owns opened)
  · constructor
    · intro own heard
      have remote : ¬ Own (!client) id := by rwa [← not_own_iff, not_not]
      refine ((speaks id).answers remote fun silent => heard ?_).mono
        (about_mono (frames_mono fromUs))
      exact List.prefix_nil.mp (silent ▸ about_mono arrives)
    · intro remote
      exact ((speaks id).opensFirst (not_own_iff.mp remote)).truncate (about_mono arrives)
  · exact (speaks id).order.truncate (about_mono arrives)

end HelixKit.Stream
