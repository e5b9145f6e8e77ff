/-
Purpose: The map from ids to streams of a TypeScript session, and when both
  implementations keep a registered stream.
Trusted boundary: none
Main exports: registered_stays
-/
import HelixKit.Stream.Registry
import HelixKit.Stream.TsSession

namespace HelixKit.Stream

open HelixKit.Runs

/-- An OPEN or a local open finds its id unused, and `close` or `reset` is
called while no other stream has the id. -/
def TsFresh (e : TsEndpoint) : TsEvent → Prop
  | .openStream _ =>
    e.session.closed = false → e.session.streams.lookup e.session.nextId = none
  | .message data =>
    ∀ frame, decodeFrame data = some frame → frame.type = .fOpen →
      e.session.streams.lookup frame.streamID.toNat = none
  | .close r | .reset r _ =>
    ∀ h other, e.objects[r]? = some h →
      e.session.streams.lookup h.stream.id = some other → other = r
  | _ => True

/-- The step removes `r` from the map in its own right: it is a `close` or a
`reset` of `r` or a RESET for its id, or it closes the session. -/
inductive TsRemoves (e : TsEndpoint) (id r : Nat) : TsEvent → Prop where
  | close : TsRemoves e id r (.close r)
  | reset (reason : Bytes) : TsRemoves e id r (.reset r reason)
  | received (data : Bytes) (frame : Frame) (decoded : decodeFrame data = some frame)
      (isReset : frame.type = .fReset) (same : frame.streamID.toNat = id) :
      TsRemoves e id r (.message data)
  | closed (event : TsEvent) (opened : e.session.closed = false)
      (closed : (tsStep e event).session.closed = true) : TsRemoves e id r event

/-- A registered stream is still what its id maps to after the step, unless the
step removes it. -/
def TsKeeps (e : TsEndpoint) (event : TsEvent) : Prop :=
  ∀ id r, e.session.streams.lookup id = some r →
    (tsStep e event).session.streams.lookup id = some r ∨ TsRemoves e id r event

/-- The map is as before, unless the session was closed. -/
def Undisturbed (e after : TsEndpoint) : Prop :=
  after.session.streams = e.session.streams ∧ after.session.closed = e.session.closed ∨
    e.session.closed = false ∧ after.session.closed = true

variable {e : TsEndpoint}

theorem Undisturbed.of_session {after : TsEndpoint} (same : after.session = e.session) :
    Undisturbed e after :=
  Or.inl ⟨by rw [same], by rw [same]⟩

theorem Undisturbed.trans {first second third : TsEndpoint} (earlier : Undisturbed first second)
    (later : Undisturbed second third) : Undisturbed first third := by
  rcases earlier with ⟨streams, closed⟩ | ⟨opened, closed⟩
  · rcases later with ⟨streams', closed'⟩ | ⟨opened', closed'⟩
    · exact Or.inl ⟨streams'.trans streams, closed'.trans closed⟩
    · exact Or.inr ⟨closed ▸ opened', closed'⟩
  · rcases later with ⟨-, closed'⟩ | ⟨opened', -⟩
    · exact Or.inr ⟨opened, closed'.trans closed⟩
    · rw [closed] at opened'
      cases opened'

theorem closeWithErr_undisturbed (e : TsEndpoint) (err : Option TsErr) :
    Undisturbed e (e.closeWithErr err) := by
  by_cases closed : e.session.closed = true
  · exact .of_session (by simp [TsEndpoint.closeWithErr, closed])
  · exact Or.inr ⟨by simpa using closed, closeWithErr_closed e err⟩

theorem sendFrame_undisturbed (e : TsEndpoint) (sender : Option Nat) (type : FrameType)
    (id : Nat) (payload : Bytes) : Undisturbed e (e.sendFrame sender type id payload) := by
  have sending := sendFrame_step e sender type id payload
  by_cases closed : e.session.closed = true
  · exact .of_session (by simp [TsEndpoint.sendFrame, closed])
  · generalize e.sendFrame sender type id payload = after at sending ⊢
    cases sending with
    | dropped closed => exact .of_session rfl
    | failed _ shut _ => exact Or.inr ⟨by simpa using closed, shut⟩
    | sent _ _ session _ => exact .of_session session

theorem flushLoop_undisturbed (fuel : Nat) (e : TsEndpoint) (r : Nat) :
    Undisturbed e (TsEndpoint.flushLoop fuel e r) := by
  induction fuel generalizing e with
  | zero => exact .of_session rfl
  | succ fuel ih =>
    unfold TsEndpoint.flushLoop
    split
    · exact .of_session rfl
    split
    · exact .of_session rfl
    rename_i h _ _ w rest _
    split
    · exact .of_session rfl
    have sent : Undisturbed e (e.flushRound r h.stream w) :=
      (sendFrame_undisturbed e _ _ _ _).trans
        (.of_session (flushRound_objects e r h.stream w).2)
    exact sent.trans (ih _)

theorem flush_undisturbed (e : TsEndpoint) (r : Nat) : Undisturbed e (e.flush r) := by
  unfold TsEndpoint.flush
  split
  · exact .of_session rfl
  · exact flushLoop_undisturbed _ e r

theorem write_undisturbed (e : TsEndpoint) (r : Nat) (data : Bytes) :
    Undisturbed e (e.write r data) := by
  unfold TsEndpoint.write
  dsimp only
  split
  · exact .of_session rfl
  split
  · exact .of_session rfl
  split
  · exact .of_session rfl
  · exact Undisturbed.trans (.of_session rfl) (flush_undisturbed _ r)

theorem endSend_undisturbed (e : TsEndpoint) (r : Nat) : Undisturbed e (e.endSend r) := by
  unfold TsEndpoint.endSend
  split
  · exact .of_session rfl
  split
  · exact .of_session rfl
  · exact Undisturbed.trans (.of_session rfl) (sendFrame_undisturbed _ _ _ _ _)

theorem onData_undisturbed (e : TsEndpoint) (r : Nat) (payload : Bytes) :
    Undisturbed e (e.onData r payload) := by
  unfold TsEndpoint.onData
  split
  · exact .of_session rfl
  split
  · exact .of_session rfl
  dsimp only
  split
  · exact Undisturbed.trans (.of_session rfl) (sendFrame_undisturbed _ _ _ _ _)
  · exact .of_session rfl

theorem Undisturbed.keeps {event : TsEvent}
    (undisturbed : Undisturbed e (tsStep e event)) : TsKeeps e event := by
  intro id r found
  rcases undisturbed with ⟨streams, -⟩ | ⟨opened, closed⟩
  · exact Or.inl (by rw [streams]; exact found)
  · exact Or.inr (.closed event opened closed)

/-- A step that ends by removing an id. -/
theorem Undisturbed.remove {before : TsEndpoint} {event : TsEvent} {id : Nat}
    (undisturbed : Undisturbed e before) (stepped : tsStep e event = before.removeStream id)
    (own : ∀ r, e.session.streams.lookup id = some r → TsRemoves e id r event) :
    TsKeeps e event := by
  intro other r found
  rcases undisturbed with ⟨streams, -⟩ | ⟨opened, closed⟩
  · by_cases same : other = id
    · subst same
      exact Or.inr (own r found)
    · left
      rw [stepped, TsEndpoint.removeStream, AList.lookup_erase_ne same, streams]
      exact found
  · exact Or.inr (.closed event opened (by rw [stepped]; exact closed))

/-- A step that registers a stream under an unused id. -/
theorem Undisturbed.register {created : TsEndpoint} {event : TsEvent} {id r : Nat}
    (undisturbed : Undisturbed created (tsStep e event))
    (streams : created.session.streams = e.session.streams.insert id r)
    (closed : created.session.closed = e.session.closed)
    (unused : e.session.streams.lookup id = none) : TsKeeps e event := by
  intro other old found
  rcases undisturbed with ⟨kept, -⟩ | ⟨opened, shut⟩
  · have apart : other ≠ id := by
      rintro rfl
      rw [unused] at found
      cases found
    left
    rw [kept, streams, AList.lookup_insert_ne apart]
    exact found
  · exact Or.inr (.closed event (closed ▸ opened) shut)

theorem tsKeeps_close {r : Nat} (fresh : TsFresh e (.close r)) :
    TsKeeps e (.close r) := by
  cases present : e.objects[r]? with
  | none => exact Undisturbed.keeps (.of_session (by simp [tsStep, TsEndpoint.close, present]))
  | some h =>
    have ended : Undisturbed e ((e.endSend r).teardown none r) :=
      (endSend_undisturbed e r).trans (.of_session (teardown_session _ _ _))
    have stepped : tsStep e (.close r) =
        ((e.endSend r).teardown none r).removeStream h.stream.id := by
      simp only [tsStep, TsEndpoint.close, present]
    apply ended.remove stepped
    intro other found
    cases fresh h other present found
    exact .close

theorem tsKeeps_reset {r : Nat} {reason : Bytes}
    (fresh : TsFresh e (.reset r reason)) : TsKeeps e (.reset r reason) := by
  cases present : e.objects[r]? with
  | none => exact Undisturbed.keeps (.of_session (by simp [tsStep, TsEndpoint.reset, present]))
  | some h =>
    have announced : Undisturbed e
        (if h.stream.closed then e else e.sendFrame (some r) .fReset h.stream.id reason) := by
      split
      · exact .of_session rfl
      · exact sendFrame_undisturbed _ _ _ _ _
    have torn := announced.trans (.of_session (teardown_session (some (.streamReset reason)) _ r))
    have stepped : tsStep e (.reset r reason) =
        TsEndpoint.removeStream
          (TsEndpoint.teardown (some (.streamReset reason))
            (if h.stream.closed then e
              else e.sendFrame (some r) .fReset h.stream.id reason) r) h.stream.id := by
      simp only [tsStep, TsEndpoint.reset, present]
    apply torn.remove stepped
    intro other found
    cases fresh h other present found
    exact .reset reason

theorem tsKeeps_open {openMeta : Bytes}
    (fresh : TsFresh e (.openStream openMeta)) : TsKeeps e (.openStream openMeta) := by
  by_cases closed : e.session.closed = true
  · exact Undisturbed.keeps (.of_session (by simp [tsStep, TsEndpoint.openStream, closed]))
  · have live : e.session.closed = false := by simpa using closed
    have sent : Undisturbed
        { e.create e.session.nextId openMeta with
          session :=
            { (e.create e.session.nextId openMeta).session with
              nextId := e.session.nextId + 2 } }
        (tsStep e (.openStream openMeta)) := by
      simp only [tsStep, TsEndpoint.openStream, live, Bool.false_eq_true, if_false]
      exact sendFrame_undisturbed _ _ _ _ _
    exact sent.register rfl rfl (fresh live)

theorem tsKeeps_message {data : Bytes} (fresh : TsFresh e (.message data)) :
    TsKeeps e (.message data) := by
  cases decoded : decodeFrame data with
  | none => exact Undisturbed.keeps (.of_session (by simp [tsStep, TsEndpoint.dispatch, decoded]))
  | some frame =>
    obtain ⟨type, streamID, payload⟩ := frame
    have stepped : tsStep e (.message data) = e.dispatch data := rfl
    simp only [TsEndpoint.dispatch, decoded] at stepped
    cases type with
    | fPing =>
      dsimp only at stepped
      exact Undisturbed.keeps (stepped ▸ sendFrame_undisturbed _ _ _ _ _)
    | fOpen =>
      dsimp only at stepped
      have same : Undisturbed (e.create streamID.toNat payload) (tsStep e (.message data)) :=
        .of_session (by rw [stepped])
      exact same.register rfl rfl (fresh _ decoded rfl)
    | fData =>
      dsimp only at stepped
      cases found : e.session.streams.lookup streamID.toNat with
      | none => exact Undisturbed.keeps (.of_session (by rw [stepped, found]))
      | some r =>
        rw [found] at stepped
        exact Undisturbed.keeps (stepped ▸ onData_undisturbed e r payload)
    | fCredit =>
      dsimp only at stepped
      cases found : e.session.streams.lookup streamID.toNat with
      | none => exact Undisturbed.keeps (.of_session (by rw [stepped, found]))
      | some r =>
        rw [found] at stepped
        have flushed : Undisturbed e (e.onCredit r (decodeCredit payload)) :=
          Undisturbed.trans (.of_session rfl) (flush_undisturbed _ r)
        exact Undisturbed.keeps (stepped ▸ flushed)
    | fReset =>
      dsimp only at stepped
      cases found : e.session.streams.lookup streamID.toNat with
      | none => exact Undisturbed.keeps (.of_session (by rw [stepped, found]))
      | some r =>
        rw [found] at stepped
        have torn : Undisturbed e (e.teardown (some .peerReset) r) :=
          .of_session (teardown_session _ _ _)
        apply torn.remove stepped
        intro other _
        exact .received data _ decoded rfl rfl
    | fEnd | fSignal | fPong | unknown =>
      dsimp only at stepped
      exact Undisturbed.keeps (.of_session (by rw [stepped]))

theorem tsKeeps {event : TsEvent} (fresh : TsFresh e event) :
    TsKeeps e event := by
  cases event with
  | openStream openMeta => exact tsKeeps_open fresh
  | write r data => exact (write_undisturbed e r data).keeps
  | endSend r => exact (endSend_undisturbed e r).keeps
  | reset r reason => exact tsKeeps_reset fresh
  | close r => exact tsKeeps_close fresh
  | signal r payload =>
    apply Undisturbed.keeps
    simp only [tsStep, TsEndpoint.signal]
    split
    · exact .of_session rfl
    · exact sendFrame_undisturbed _ _ _ _ _
  | closeSession => exact (closeWithErr_undisturbed e none).keeps
  | ping => exact (sendFrame_undisturbed e none .fPing 0 []).keeps
  | message data => exact tsKeeps_message fresh
  | transportClosed err => exact (closeWithErr_undisturbed e err).keeps

/-- In every run of a Go session and in every run of a TypeScript session in
which ids are only reused once they are out of use, a registered stream stays
what its id maps to until it is removed in its own right. -/
theorem registered_stays {cfg : Config} {goEvents : List GoEvent} {e : TsEndpoint}
    {tsEvents : List TsEvent} (go : Along goStep GoFresh { endpoint := newEndpoint cfg } goEvents)
    (ts : Along tsStep TsFresh e tsEvents) :
    Along goStep GoKeeps { endpoint := newEndpoint cfg } goEvents ∧
      Along tsStep TsKeeps e tsEvents := by
  constructor
  · exact go.always RegistryInv (fun _ _ inv fresh => (inv.step fresh).1)
      (fun _ _ inv fresh => (inv.step fresh).2) (registryInv_start cfg)
  · exact ts.always (fun _ => True) (fun _ _ _ _ => trivial) (fun _ _ _ fresh => tsKeeps fresh)
      trivial

/-- The peer opens a stream, and the session opens one itself. -/
theorem registered_stays_one :
    Along goStep GoKeeps { endpoint := newEndpoint { client := true } }
        [.receive (encodeFrame .fOpen 2 []), .act .stepLoop] ∧
      Along tsStep TsKeeps { session := newTsSession { client := true } }
        [.openStream [], .message (encodeFrame .fOpen 2 [])] := by
  apply registered_stays
  · refine ⟨?_, trivial, trivial⟩
    intro frame _ _
    constructor
    · rfl
    · simp [newEndpoint, Endpoint.tasks]
  · refine ⟨fun _ => rfl, ?_, trivial⟩
    intro frame decoded _
    have same : some frame = some { type := .fOpen, streamID := 2, payload := [] } :=
      decoded.symm.trans (by decide)
    cases same
    decide

/-- A second OPEN with an id in use replaces the stream in both
implementations. -/
theorem registered_stays_fails :
    ¬ Along goStep GoKeeps { endpoint := newEndpoint { client := true } }
        [.receive (encodeFrame .fOpen 2 []), .act .stepLoop,
          .receive (encodeFrame .fOpen 2 [])] ∧
      ¬ Along tsStep TsKeeps { session := newTsSession { client := true } }
        [.openStream [], .message (encodeFrame .fOpen 1 [])] := by
  constructor
  · rintro ⟨-, -, keeps, -⟩
    rcases keeps 2 { id := 2 } (by decide) with kept | removed
    · exact absurd kept (by decide)
    · cases removed with
      | closed _ _ closed => exact absurd closed (by decide)
  · rintro ⟨-, keeps, -⟩
    rcases keeps 1 0 (by decide) with kept | removed
    · exact absurd kept (by decide)
    · cases removed with
      | received _ frame decoded isReset _ =>
        have same : some frame = some { type := .fOpen, streamID := 1, payload := [] } :=
          decoded.symm.trans (by decide)
        cases same
        cases isReset
      | closed _ _ closed => exact absurd closed (by decide)

end HelixKit.Stream
