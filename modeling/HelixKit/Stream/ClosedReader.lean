/-
Purpose: A `Write` that waits for window when the reader of its stream has closed.  `Close` says
  END and forgets the stream, so that nobody releases the writer unless the writer was done.
Trusted boundary: none
Main exports: writer_stuck
-/
import HelixKit.Stream.TsPeer

namespace HelixKit.Stream

open HelixKit.Duplex HelixKit.History

/-! ### Either implementation -/

/-- A session of either implementation. -/
inductive Peer where
  | go (e : Endpoint)
  | ts (n : TsNode)

namespace Peer

/-- A session before anything has happened. -/
inductive Starts (client : Bool) : Peer → Prop where
  | go (cfg : Config) (side : cfg.client = client) : Starts client (.go (newEndpoint cfg))
  | ts (opts : TsOptions) (throws : Nat → Bool) (side : opts.client = client) :
      Starts client (.ts { endpoint := newTsEndpoint opts throws })

/-- The session is not closed. -/
def Alive : Peer → Prop
  | go e => e.session.closed = false
  | ts n => n.endpoint.session.closed = false

/-- Nothing goes on by itself; a TypeScript session runs each event to its end. -/
def AtRest : Peer → Prop
  | go e => e.AtRest
  | ts _ => True

/-- A write on the stream waits for window. -/
def WaitsForWindow (id : UInt32) : Peer → Prop
  | go e => ∃ r, r.id = id ∧ e.WaitsForWindow r
  | ts n => ∃ (k : Nat) (h : TsHandle), n.endpoint.objects[k]? = some h ∧
      h.stream.id = id.toNat ∧ h.stream.queue ≠ []

/-- The stream was closed or reset at this end. -/
def HasClosed (id : UInt32) : Peer → Prop
  | go e => ∃ r, r.id = id ∧ e.HasClosed r
  | ts n => ∃ (k : Nat) (h : TsHandle), n.endpoint.objects[k]? = some h ∧
      h.stream.id = id.toNat ∧ h.stream.closed = true

def Inv (client : Bool) : Peer → List Bytes → List Bytes → Prop
  | go e => GoInv client e
  | ts n => TsInv client n

end Peer

/-- A session of either implementation whose moves are all courteous. -/
def peerParty : Party Peer Bytes where
  act before out after :=
    match before, after with
    | .go e, .go e' => (goPartyWhen fun e a => a.Courteous e).act e out e'
    | .ts n, .ts n' => (tsMachine.party fun n event => event.Courteous n).act n out n'
    | _, _ => False
  receive before message out after :=
    match before, after with
    | .go e, .go e' => (goPartyWhen fun e a => a.Courteous e).receive e message out e'
    | .ts n, .ts n' =>
      (tsMachine.party fun n event => event.Courteous n).receive n message out n'
    | _, _ => False

theorem peer_contract (client : Bool) :
    Contract peerParty (Peer.Inv client) (Around client) where
  act := by
    rintro before after sent received out inv around moved
    cases before <;> cases after
    · exact (go_contract client).act inv around moved
    · exact moved.elim
    · exact moved.elim
    · exact (ts_contract client).act inv around moved
  receive := by
    rintro before after sent received out message inv around moved
    cases before <;> cases after
    · exact (go_contract client).receive inv around moved
    · exact moved.elim
    · exact moved.elim
    · exact (ts_contract client).receive inv around moved

theorem Peer.Inv.around {client : Bool} {sent received : List Bytes}
    (rely : Rely (Peer.Inv (!client)) sent received) : Around client sent received := by
  obtain ⟨peer, peerSent, peerReceived, inv, fromUs, toUs⟩ := rely
  cases peer with
  | go e => exact GoInv.around ⟨e, peerSent, peerReceived, inv, fromUs, toUs⟩
  | ts n => exact TsInv.around ⟨n, peerSent, peerReceived, inv, fromUs, toUs⟩

/-! ### One end of a stream -/

/-- What the rest of the argument needs of the end at which a write waits: it has not ended nor
reset the stream, and heard of no reset. -/
def Unreleased (sent received : List Frame) : Prop :=
  ¬ Ended sent ∧ ¬ WasReset sent ∧ ¬ WasReset received

theorem Peer.Inv.unreleased {client : Bool} {peer : Peer} {sent received : List Bytes}
    {id : UInt32} (inv : peer.Inv client sent received) (resting : peer.AtRest)
    (alive : peer.Alive) (waits : peer.WaitsForWindow id) :
    Unreleased (about id (frames sent)) (about id (frames received)) := by
  cases peer with
  | go e =>
    obtain ⟨⟨naming, release⟩, apart⟩ := inv
    obtain ⟨r, rfl, waits⟩ := waits
    have first : r = { id := r.id } := by
      obtain ⟨_, _, handle, _, present, -⟩ := waits
      exact naming.ref_eq (by simp [present])
    rw [first] at waits
    obtain ⟨sends, hears, ends⟩ :=
      (release r.id).not_reset naming resting apart alive waits
    exact ⟨ends, sends, hears⟩
  | ts n =>
    obtain ⟨rfl, good⟩ := inv
    obtain ⟨k, h, present, same, waits⟩ := waits
    have alive := good.alive alive
    obtain rfl : id = h.streamID := by simp [TsHandle.streamID, same]
    have fine := alive.fine present
    rw [alive.logged present]
    exact ⟨fun ended => waits (fine.drained (Or.inl (fine.ended ended))),
      fun sends => waits (fine.drained (Or.inr (fine.resets (Or.inl sends)))),
      fun hears => waits (fine.drained (Or.inr (fine.resets (Or.inr hears))))⟩

/-- A stream is closed or reset only once its peer has ended it, or after a RESET. -/
theorem Peer.Inv.reason {client : Bool} {peer : Peer} {sent received : List Bytes} {id : UInt32}
    (inv : peer.Inv client sent received) (alive : peer.Alive) (closed : peer.HasClosed id) :
    Ended (about id (frames received)) ∨ WasReset (about id (frames sent)) ∨
      WasReset (about id (frames received)) := by
  cases peer with
  | go e =>
    obtain ⟨⟨naming, release⟩, -⟩ := inv
    obtain ⟨r, rfl, handle, present, once⟩ := closed
    have first : r = { id := r.id } := naming.ref_eq (by simp [present])
    rw [first] at present
    have strand := release r.id
    refine ((strand.alive alive).reason ⟨handle, present, once⟩).imp_left fun reof => ?_
    exact strand.delivery.recv.ended (Or.inl reof)
  | ts n =>
    obtain ⟨rfl, good⟩ := inv
    obtain ⟨k, h, present, same, closed⟩ := closed
    have alive := good.alive alive
    obtain rfl : id = h.streamID := by simp [TsHandle.streamID, same]
    rw [alive.logged present]
    exact (alive.fine present).torn closed

/-! ### The pair -/

/-- In a run of a Go session with a session of either implementation, in which no session runs out
of ids, a TypeScript stream is ended only with nothing in its queue, and each stream is closed only
after its peer has ended it, or after a teardown: once every frame is delivered and nothing goes
on, no write waits for window on a stream that the other end has closed or reset. -/
theorem closed_reader_releases {capacity : Option Nat} {cfg : Config} {peer : Peer}
    {state : State Endpoint Peer Bytes} {past : Histories Bytes}
    (starts : peer.Starts (!cfg.client))
    (run : Run (goPartyWhen fun e a => a.Courteous e) peerParty capacity (newEndpoint cfg) peer
      state past)
    (delivered : state.toRight = [] ∧ state.toLeft = [])
    (resting : (Peer.go state.left).AtRest ∧ state.right.AtRest)
    (alive : (Peer.go state.left).Alive ∧ state.right.Alive) (id : UInt32) :
    ¬ ((Peer.go state.left).WaitsForWindow id ∧ state.right.HasClosed id) ∧
      ¬ (state.right.WaitsForWindow id ∧ (Peer.go state.left).HasClosed id) := by
  have start : peer.Inv (!cfg.client) [] [] := by
    cases starts with
    | go other side =>
      rw [← side]
      exact go_start other
    | ts opts throws side =>
      rw [← side]
      exact ts_start opts throws
  obtain ⟨leftInv, rightInv⟩ := Run.invariant (go_start cfg) start
    ((go_contract cfg.client).mono Peer.Inv.around)
    ((peer_contract (!cfg.client)).mono fun rely =>
      GoInv.around (by rwa [Bool.not_not])) run
  have leftInv : (Peer.go state.left).Inv cfg.client past.leftSent past.leftReceived := leftInv
  have toRight := run.leftFifo
  have toLeft := run.rightFifo
  rw [delivered.1, List.append_nil] at toRight
  rw [delivered.2, List.append_nil] at toLeft
  -- the writer has ended nothing, and no RESET went either way, so the reader had no reason
  constructor
  · rintro ⟨waits, closed⟩
    obtain ⟨notEnded, noReset, noneHeard⟩ := leftInv.unreleased resting.1 alive.1 waits
    rcases rightInv.reason alive.2 closed with ended | sends | hears
    · exact notEnded (toRight ▸ ended)
    · exact noneHeard (toLeft ▸ sends)
    · exact noReset (toRight ▸ hears)
  · rintro ⟨waits, closed⟩
    obtain ⟨notEnded, noReset, noneHeard⟩ := rightInv.unreleased resting.2 alive.2 waits
    rcases leftInv.reason alive.1 closed with ended | sends | hears
    · exact notEnded (toLeft ▸ ended)
    · exact noneHeard (toRight ▸ sends)
    · exact noReset (toLeft ▸ hears)

/-! ### Two runs -/

/-- No goroutine can go on. -/
def Endpoint.waiting (e : Endpoint) : Bool :=
  (e.loop :: e.threads).all fun
    | [] => true
    | task :: _ => (e.exec task).isNone

theorem Endpoint.atRest_of_waiting {e : Endpoint} (waiting : e.waiting = true) : e.AtRest := by
  have each := List.all_eq_true.mp waiting
  constructor
  · intro k
    cases found : e.threads[k]? with
    | none => simp [Endpoint.act, found]
    | some tasks =>
      have here := each tasks (List.mem_cons_of_mem _ (List.mem_of_getElem? found))
      cases tasks with
      | nil => simp [Endpoint.act, found]
      | cons task rest => simpa [Endpoint.act, found] using here
  · have here := each e.loop (by simp)
    cases loop : e.loop with
    | nil => simp [Endpoint.act, loop]
    | cons task rest =>
      rw [loop] at here
      simpa [Endpoint.act, loop] using here

/-- A session whose streams start with a window of one byte. -/
def oneByte (client : Bool) : Endpoint := newEndpoint { client, initialWindow := 1 }

/-- Moves of a session that are courteous. -/
def Act.isCourteous (e : Endpoint) : Act → Bool
  | .openStream _ => decide (e.opened < maxOpened)
  | .close r => (e.heap r).all fun handle => handle.stream.reof || handle.stream.closeOnce
  | _ => true

theorem Act.courteous_of_isCourteous (e : Endpoint) (a : Act) (courteous : a.isCourteous e = true) :
    a.Courteous e := by
  cases a with
  | openStream openMeta => simpa [Act.isCourteous, Act.Courteous] using courteous
  | close r =>
    intro handle present
    simpa [Act.isCourteous, present] using courteous
  | _ => trivial

/-- The client half-closes a stream, and the server closes it then. -/
def courteousScript : List (Turn Act Act) :=
  [.left (.openStream []), .left (.step 0), .toRight, .right .stepLoop, .right .accept,
    .left (.write { id := 1 } [7]), .left (.step 1), .left (.step 1), .toRight, .right .stepLoop,
    .left (.closeWrite { id := 1 }), .left (.step 2), .left (.step 2), .toRight,
    .right .stepLoop, .right (.close { id := 1 }), .right (.step 0), .right (.step 0),
    .right (.step 0), .right (.step 0), .right (.step 0), .right (.step 0), .right (.step 0),
    .toLeft, .left .stepLoop]

def courteousRun : Option (State Endpoint Endpoint Bytes × Histories Bytes) :=
  play (goMachine.restrict fun e a => a.isCourteous e)
    (goMachine.restrict fun e a => a.isCourteous e) none
    ({ left := oneByte true, right := oneByte false }, {}) courteousScript

theorem closed_reader_releases_script : ∃ now ∈ courteousRun,
    now.1.right.HasClosed { id := 1 } ∧ ¬ (Peer.go now.1.left).WaitsForWindow 1 := by
  have finished : courteousRun.map (fun now => (now.1.toRight, now.1.toLeft,
      (now.1.right.heap { id := 1 }).map fun handle => handle.stream.closeOnce)) =
      some ([], [], some true) := by decide +kernel
  have sessions : courteousRun.map (fun now =>
      ((now.1.left.waiting, now.1.right.waiting),
        now.1.left.session.closed, now.1.right.session.closed)) =
      some ((true, true), false, false) := by decide +kernel
  obtain ⟨now, played, result⟩ := Option.map_eq_some_iff.mp finished
  rw [played] at sessions
  simp only [Option.map_some, Option.some.injEq, Prod.mk.injEq] at result sessions
  obtain ⟨toRight, toLeft, reader⟩ := result
  obtain ⟨⟨left, right⟩, alive, alive'⟩ := sessions
  obtain ⟨handle, present, once⟩ := Option.map_eq_some_iff.mp reader
  have closed : now.1.right.HasClosed { id := 1 } := ⟨handle, present, once⟩
  have run : Run (goPartyWhen fun e a => a.Courteous e) peerParty none (oneByte true)
      (.go (oneByte false)) (now.1.map id Peer.go) now.2 :=
    (play_run .start played).map (Machine.restrict_embeds Act.courteous_of_isCourteous)
      ⟨(Machine.restrict_embeds Act.courteous_of_isCourteous).act,
        (Machine.restrict_embeds Act.courteous_of_isCourteous).receive⟩
  refine ⟨now, played, closed, fun waits => ?_⟩
  exact (closed_reader_releases (.go _ rfl) run ⟨toRight, toLeft⟩
    ⟨Endpoint.atRest_of_waiting left, Endpoint.atRest_of_waiting right⟩ ⟨alive, alive'⟩ 1).1
      ⟨waits, _, rfl, closed⟩

/-- The server accepts a stream and closes it; the client writes two bytes. -/
def closedScript : List (Turn Act Act) :=
  [.left (.openStream []), .left (.step 0), .toRight, .right .stepLoop, .right .accept,
    .right (.close { id := 1 }), .right (.step 0), .right (.step 0), .right (.step 0),
    .right (.step 0), .right (.step 0), .right (.step 0), .right (.step 0), .toLeft,
    .left .stepLoop, .left (.write { id := 1 } [7, 8]), .left (.step 1), .left (.step 1),
    .toRight]

def closedRun : Option (State Endpoint Endpoint Bytes × Histories Bytes) :=
  play goMachine goMachine none ({ left := oneByte true, right := oneByte false }, {})
    closedScript

/-- The second byte waits for ever. -/
theorem writer_stuck :
    ∃ state past, Run goParty goParty none (oneByte true) (oneByte false) state past ∧
      state.toRight = [] ∧ state.toLeft = [] ∧ state.left.AtRest ∧ state.right.AtRest ∧
        state.left.session.closed = false ∧ state.right.session.closed = false ∧
          state.left.WaitsForWindow { id := 1 } ∧ state.right.HasClosed { id := 1 } := by
  have finished : closedRun.map (fun now =>
      (now.1.toRight, now.1.toLeft, now.1.left.threads)) =
      some ([], [], [[], [.onStream { id := 1 } (.write [8])]]) := by decide +kernel
  have sessions : closedRun.map (fun now =>
      ((now.1.left.waiting, now.1.right.waiting),
        now.1.left.session.closed, now.1.right.session.closed)) =
      some ((true, true), false, false) := by decide +kernel
  have streams : closedRun.map (fun now =>
      ((now.1.left.heap { id := 1 }).map fun handle =>
          (handle.stream.smu, handle.stream.writeNext [8]),
        (now.1.right.heap { id := 1 }).map fun handle => handle.stream.closeOnce)) =
      some (some (false, .waits), some true) := by decide +kernel
  obtain ⟨now, played, result⟩ := Option.map_eq_some_iff.mp finished
  rw [played] at sessions streams
  simp only [Option.map_some, Option.some.injEq, Prod.mk.injEq] at result sessions streams
  obtain ⟨toRight, toLeft, threads⟩ := result
  obtain ⟨⟨left, right⟩, alive, alive'⟩ := sessions
  obtain ⟨writer, reader⟩ := streams
  obtain ⟨handle, present, writes⟩ := Option.map_eq_some_iff.mp writer
  simp only [Prod.mk.injEq] at writes
  obtain ⟨handle', present', once⟩ := Option.map_eq_some_iff.mp reader
  refine ⟨now.1, now.2, play_run .start played, toRight, toLeft,
    Endpoint.atRest_of_waiting left, Endpoint.atRest_of_waiting right, alive, alive', ?_,
    handle', present', once⟩
  exact ⟨[8], [], handle, by simp [threads], present, writes⟩

end HelixKit.Stream
