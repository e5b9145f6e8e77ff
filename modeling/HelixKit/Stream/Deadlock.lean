/-
Purpose: Two sessions over a transport that takes a bounded number of frames: `Write` holds the send
  mutex that the read loop needs for a CREDIT.
Trusted boundary: none
Main exports: deadlock_reached
-/
import HelixKit.Stream.OpenSession

namespace HelixKit.Stream

open HelixKit.Duplex HelixKit.History

/-! ### Progress -/

/-- A goroutine goes on, and the transport takes what it writes. -/
def Endpoint.GoesOn (capacity : Option Nat) (e : Endpoint) (channel : List Bytes) : Prop :=
  ∃ a after out, (a = .stepLoop ∨ ∃ k, a = .step k) ∧ e.act a = some (after, out) ∧
    Fits capacity channel out

/-- The read loop takes a message from the transport. -/
def Endpoint.Takes (e : Endpoint) (channel : List Bytes) : Prop :=
  ∃ message ∈ channel.head?, (e.receive message).isSome = true

/-- The application has a stream to accept, or bytes to read. -/
def Endpoint.Serves (e : Endpoint) : Prop :=
  e.session.accept ≠ [] ∨
    ∃ r handle, e.heap r = some handle ∧ handle.held = true ∧ handle.stream.rbuf ≠ []

/-- No `Write` is going on. -/
def Endpoint.Written (e : Endpoint) : Prop :=
  ∀ tasks ∈ e.threads, ∀ r p,
    .onStream r (.write p) ∉ tasks ∧ .onStream r (.writing p) ∉ tasks

/-- Something of the pair goes on, as long as the applications accept and read. -/
inductive CanProceed (capacity : Option Nat) (state : State Endpoint Endpoint Bytes) : Prop where
  | left (goes : state.left.GoesOn capacity state.toRight)
  | right (goes : state.right.GoesOn capacity state.toLeft)
  | toRight (takes : state.right.Takes state.toRight)
  | toLeft (takes : state.left.Takes state.toLeft)
  | leftServes (serves : state.left.Serves)
  | rightServes (serves : state.right.Serves)

/-- All that was written has been read. -/
structure Settled (state : State Endpoint Endpoint Bytes) : Prop where
  written : state.left.Written ∧ state.right.Written
  toRight : ∀ r, state.right.returned r = state.left.accepted r
  toLeft : ∀ r, state.left.returned r = state.right.accepted r

/-- Nothing goes on any more, and something written has not been read. -/
def Deadlock (capacity : Option Nat) (state : State Endpoint Endpoint Bytes) : Prop :=
  ¬ CanProceed capacity state ∧ ¬ Settled state

/-- The transport takes one more frame. -/
def HasRoom (capacity : Option Nat) (channel : List Bytes) : Prop :=
  ∀ bound ∈ capacity, channel.length + 1 ≤ bound

/-- The transport is full, and the read loop waits: for a `Write` that holds the send mutex, or to
write a PONG. -/
def Endpoint.Jammed (capacity : Option Nat) (e : Endpoint) (channel : List Bytes) : Prop :=
  ¬ HasRoom capacity channel ∧ ∃ task ∈ e.loop.head?, (∀ r, task ≠ .acceptSend r) ∧
    ∀ move, e.exec task = some move → move.out ≠ []

/-- Not both sides are jammed. -/
def Unjammed (capacity : Option Nat) (state : State Endpoint Endpoint Bytes) : Prop :=
  ¬ (state.left.Jammed capacity state.toRight ∧ state.right.Jammed capacity state.toLeft)

/-- A move of an application that closes and resets nothing, in a session that does not run out of
ids, and whose grants fit a CREDIT frame. -/
def Act.Serving (e : Endpoint) (a : Act) : Prop := a.Calm ∧ a.Within GrantFits e

/-! ### One side -/

section OneSide

variable {capacity : Option Nat} {e : Endpoint} {channel : List Bytes}

theorem GoStream.exec_writing (maxChunk : Nat) (transportClosed : Bool) (st : GoStream)
    (p : Bytes) : (st.exec maxChunk transportClosed (.writing p)).isSome = true := by
  simp only [GoStream.exec]
  split
  · rfl
  · split <;> rfl

/-- With the send mutex free, only a `Write` waits. -/
theorem GoStream.waits_cases {maxChunk : Nat} {transportClosed : Bool} {st : GoStream}
    {op : StreamOp} (free : st.smu = false)
    (waits : st.exec maxChunk transportClosed op = none) :
    ∃ p, op = .write p ∧ st.writeNext p = .waits := by
  cases op with
  | write p =>
    refine ⟨p, rfl, ?_⟩
    cases next : st.writeNext p <;> simp_all [GoStream.exec]
  | writing p =>
    have goes := st.exec_writing maxChunk transportClosed p
    simp [waits] at goes
  | _ =>
    simp only [GoStream.exec, free, Bool.false_eq_true, if_false] at waits
    repeat' split at waits
    all_goals cases waits

theorem Endpoint.exec_out_le {task : Task} {move : Move} (ran : e.exec task = some move) :
    move.out.length ≤ 1 := by
  cases task with
  | writeFrame =>
    cases ran
    dsimp only
    split <;> simp
  | openFrame =>
    simp only [Endpoint.exec] at ran
    split at ran
    · cases ran
      simp
    · obtain ⟨handle, -, rfl⟩ := Option.map_eq_some_iff.mp ran
      simp
  | onStream r op =>
    obtain ⟨handle, -, ran⟩ := Option.bind_eq_some_iff.mp ran
    obtain ⟨effect, -, rfl⟩ := Option.map_eq_some_iff.mp ran
    cases effect.data <;> simp
  | acceptSend =>
    simp only [Endpoint.exec] at ran
    repeat' split at ran
    all_goals cases ran <;> simp
  | closeWithErr =>
    simp only [Endpoint.exec] at ran
    split at ran <;> cases ran <;> simp
  | _ =>
    cases ran
    simp

theorem HasRoom.fits {out : List Bytes} (room : HasRoom capacity channel)
    (short : out.length ≤ 1) : Fits capacity channel out :=
  Or.inr fun bound isBound => by
    have := room bound isBound
    omega

theorem Endpoint.GoesOn.of_loop {task : Task} {rest : List Task} {move : Move}
    (loop : e.loop = task :: rest) (ran : e.exec task = some move)
    (fits : Fits capacity channel move.out) : e.GoesOn capacity channel :=
  ⟨.stepLoop, { move.after with loop := move.continues ++ rest }, move.out, Or.inl rfl,
    by simp [Endpoint.act, loop, ran], fits⟩

theorem Endpoint.GoesOn.of_thread {task : Task} {rest : List Task} {move : Move}
    (among : task :: rest ∈ e.threads) (ran : e.exec task = some move)
    (fits : Fits capacity channel move.out) : e.GoesOn capacity channel := by
  obtain ⟨k, found⟩ := List.mem_iff_getElem?.mp among
  exact ⟨.step k, { move.after with threads := e.threads.set k (move.continues ++ rest) },
    move.out, Or.inr ⟨k, rfl⟩, by simp [Endpoint.act, found, ran], fits⟩

/-- Handing a stream to `Accept` waits only while the application has streams to accept. -/
theorem Tame.accept_cases (tame : Tame e) (r : Ref) :
    e.session.accept ≠ [] ∨ ∃ move, e.exec (.acceptSend r) = some move ∧ move.out = [] := by
  cases ran : e.exec (.acceptSend r) with
  | none =>
    refine Or.inl fun none => ?_
    simp [Endpoint.exec, none, acceptCapacity] at ran
  | some move =>
    refine Or.inr ⟨move, rfl, ?_⟩
    simp only [Endpoint.exec, tame.healthy.closed, Bool.false_eq_true, if_false] at ran
    split at ran <;> cases ran
    rfl

/-- If the transport is full, a read loop that does not wait is done with every frame. -/
theorem Tame.loop_done (tame : Tame e) (idle : ¬ e.GoesOn capacity channel)
    (served : ¬ e.Serves) (full : ¬ HasRoom capacity channel)
    (free : ¬ e.Jammed capacity channel) : e.loop = [] := by
  cases loop : e.loop with
  | nil => rfl
  | cons task rest =>
    by_cases accepting : ∃ r, task = .acceptSend r
    · obtain ⟨r, rfl⟩ := accepting
      rcases tame.accept_cases r with queued | ⟨move, ran, none⟩
      · exact absurd (Or.inl queued) served
      · exact absurd (.of_loop loop ran (by simp [none])) idle
    · refine absurd ⟨full, task, by simp [loop], fun r same => accepting ⟨r, same⟩, ?_⟩ free
      exact fun move ran none => idle (.of_loop loop ran (by simp [none]))

/-- A read loop that is done has taken every message. -/
theorem Tame.channel_empty (tame : Tame e) (loop : e.loop = []) (deaf : ¬ e.Takes channel) :
    channel = [] := by
  cases channel with
  | nil => rfl
  | cons message rest =>
    refine absurd ⟨message, rfl, ?_⟩ deaf
    simp only [Endpoint.receive, loop, tame.healthy.reading, tame.healthy.connected, and_self,
      if_true]
    split <;> rfl

/-- What is left of a side at which nothing goes on and which has room to write. -/
structure Stalled (e : Endpoint) : Prop where
  loop : e.loop = []
  threads : ∀ tasks ∈ e.threads, tasks = [] ∨ ∃ r p handle,
    tasks = [.onStream r (.write p)] ∧ e.heap r = some handle ∧
      handle.stream.writeNext p = .waits

theorem Tame.unlocked (tame : Tame e) (room : HasRoom capacity channel)
    (idle : ¬ e.GoesOn capacity channel) {r : Ref} {handle : Handle}
    (present : e.heap r = some handle) : handle.stream.smu = false := by
  by_contra locked
  obtain ⟨p, writing⟩ := tame.holder r handle present (by simpa using locked)
  have goes : (e.exec (.onStream r (.writing p))).isSome = true := by
    simpa [Endpoint.exec, present] using handle.stream.exec_writing _ _ p
  obtain ⟨move, ran⟩ := Option.isSome_iff_exists.mp goes
  exact idle (.of_thread writing ran (room.fits (Endpoint.exec_out_le ran)))

/-- With room to write, only a `Write` waits, and only for window. -/
theorem Tame.waits_cases {client : Bool} {sent received : List Frame} (tame : Tame e)
    (naming : Naming client e sent received) (room : HasRoom capacity channel)
    (idle : ¬ e.GoesOn capacity channel) (served : ¬ e.Serves) {task : Task}
    (known : task ∈ e.tasks) (calm : task.Calm) (waits : e.exec task = none) :
    ∃ r p handle, task = .onStream r (.write p) ∧ e.heap r = some handle ∧
      handle.stream.writeNext p = .waits := by
  have present {r : Ref} (named : r ∈ task.refs) : ∃ handle, e.heap r = some handle :=
    Option.isSome_iff_exists.mp (naming.tasksKnown known r named)
  cases task with
  | writeFrame => cases waits
  | openFrame r openMeta =>
    obtain ⟨handle, is⟩ := present (r := r) (by simp [Task.refs])
    simp [Endpoint.exec, tame.healthy.connected, is] at waits
  | onStream r op =>
    obtain ⟨handle, is⟩ := present (r := r) (by simp [Task.refs])
    simp only [Endpoint.exec, is, Option.bind_some, Option.map_eq_none_iff] at waits
    obtain ⟨p, rfl, next⟩ := GoStream.waits_cases (tame.unlocked room idle is) waits
    exact ⟨r, p, handle, rfl, is, next⟩
  | acceptSend r =>
    rcases tame.accept_cases r with queued | ⟨move, ran, -⟩
    · exact absurd (Or.inl queued) served
    · simp [waits] at ran
  | _ => exact absurd calm id

theorem Tame.stalled {client : Bool} {sent received : List Frame} (tame : Tame e)
    (naming : Naming client e sent received) (room : HasRoom capacity channel)
    (idle : ¬ e.GoesOn capacity channel) (served : ¬ e.Serves) : Stalled e := by
  have waits {task : Task} (ran : ∀ move, e.exec task = some move → False) :
      e.exec task = none := Option.eq_none_iff_forall_not_mem.mpr fun move => ran move
  constructor
  · cases loop : e.loop with
    | nil => rfl
    | cons task rest =>
      have stops := waits fun move ran =>
        idle (.of_loop loop ran (room.fits (Endpoint.exec_out_le ran)))
      obtain ⟨r, p, -, rfl, -⟩ := tame.waits_cases naming room idle served
        (by simp [Endpoint.tasks, loop]) (tame.calm _ List.mem_cons_self _ (by simp [loop]))
        stops
      exact absurd (tame.inbound _ (by rw [loop]; exact List.mem_cons_self)) id
  · intro tasks among
    cases tasks with
    | nil => exact Or.inl rfl
    | cons task rest =>
      have stops := waits fun move ran =>
        idle (.of_thread among ran (room.fits (Endpoint.exec_out_le ran)))
      obtain ⟨r, p, handle, rfl, is, next⟩ := tame.waits_cases naming room idle served
        (List.mem_append_right _ (List.mem_flatten_of_mem among (by simp)))
        (tame.calm _ (List.mem_cons_of_mem _ among) _ (by simp)) stops
      have alone : rest = [] := by
        simpa using tame.short _ (List.mem_cons_of_mem _ among)
      exact Or.inr ⟨r, p, handle, by rw [alone], is, next⟩

end OneSide

/-! ### The pair -/

section Pair

variable {W : Nat} {e peer : Endpoint} {id : UInt32}

theorem Stalled.load (stalled : Stalled e) (weight : Task → Nat)
    (light : ∀ r p, weight (.onStream r (.write p)) = 0) : (e.strand id).load weight = 0 := by
  refine Multiset.sum_eq_zero_iff.mpr ?_
  intro total among
  obtain ⟨tasks, goroutine, rfl⟩ := Multiset.mem_map.mp among
  rcases Multiset.mem_cons.mp goroutine with rfl | thread
  · simp [Endpoint.strand, stalled.loop]
  · simp only [Endpoint.strand, Multiset.mem_map] at thread
    obtain ⟨all, member, rfl⟩ := thread
    rcases stalled.threads all (by simpa using member) with rfl | ⟨r, p, -, rfl, -⟩
    · rfl
    · simp only [List.filter_cons, List.filter_nil]
      split <;> simp [light]

theorem Stalled.arriving (stalled : Stalled e) : (e.strand id).arriving = [] := by
  simp [Strand.arriving, Endpoint.strand, stalled.loop]

theorem Tame.not_torn (tame : Tame e) : ¬ (e.strand id).Torn := by
  rintro (closed | ⟨handle, present, once⟩)
  · exact absurd (tame.healthy.closed.symm.trans closed) (by simp)
  · have working := (tame.healthy.working _ handle present).closeOnce
    simp [working] at once

theorem Endpoint.view_eq {handle : Handle} (present : e.heap { id } = some handle) :
    (e.strand id).view = handle := by
  change (e.heap { id }).getD _ = _
  rw [present]
  rfl

/-- At a session at which nothing goes on, the application has read what has come in. -/
theorem Tame.rbuf_empty (tame : Tame e) (stalled : Stalled e) (served : ¬ e.Serves) :
    (e.strand id).view.stream.rbuf = [] := by
  cases present : e.heap { id } with
  | none =>
    change ((e.heap { id }).getD _).stream.rbuf = []
    rw [present]
    rfl
  | some handle =>
    rw [Endpoint.view_eq present]
    by_contra bytes
    rcases tame.served _ handle present with held | queued | sending | ⟨openMeta, opening⟩
    · exact served (Or.inr ⟨_, handle, present, held, bytes⟩)
    · exact served (Or.inl (List.ne_nil_of_mem queued))
    · simp [stalled.loop] at sending
    · rcases stalled.threads _ opening with none | ⟨r, p, -, same, -⟩
      · cases none
      · cases same

/-- Once all frames are delivered and read, each `Write` has window. -/
theorem Balanced.stalled_done {client : Bool} {sent received : List Frame}
    (naming : Naming client e sent received) (stalled : Stalled e) (tame : Tame peer)
    (other : Stalled peer) (served : ¬ peer.Serves)
    (balanced : ∀ id, Balanced W id e peer [] []) : ∀ tasks ∈ e.threads, tasks = [] := by
  intro tasks among
  rcases stalled.threads tasks among with none | ⟨r, p, handle, rfl, present, waits⟩
  · exact none
  · have first : r = { id := r.id } := naming.ref_eq (by simp [present])
    rw [first] at present
    have window := (balanced r.id).open_ (by simp [dataInFlight, other.arriving, about])
      (by
        simp [creditInFlight, about, creditOf, other.load Task.granting fun _ _ => rfl,
          stalled.load Task.crediting fun _ _ => rfl])
      (tame.rbuf_empty other served)
    rw [Endpoint.view_eq present] at window
    simp only [GoStream.writeNext] at waits
    split at waits
    · cases waits
    split at waits
    next closed => omega
    · split at waits <;> cases waits

/-- Once all frames are delivered and read, the reader has what the writer's `Write`s took. -/
theorem FlowControl.all_read {Fits : Nat → Handle → Nat → Prop} {own own' : Prop}
    {sent received sent' received' : List Frame}
    (reader : FlowControl W Fits own (e.strand id) sent received)
    (writer : FlowControl W Fits own' (peer.strand id) sent' received')
    (delivered : sent' = received) (tame : Tame e) (stalled : Stalled e) (served : ¬ e.Serves) :
    e.returned { id } = peer.accepted { id } := by
  have accepted : peer.accepted { id } = dataOf sent' := by
    rw [writer.delivery.send.accepted, Strand.view, Endpoint.accepted]
    change _ = ((peer.heap { id }).getD _).accepted
    cases peer.heap { id } <;> rfl
  have returned : e.returned { id } = (e.strand id).view.returned := by
    rw [Strand.view, Endpoint.returned]
    change _ = ((e.heap { id }).getD _).returned
    cases e.heap { id } <;> rfl
  have lengths := reader.arrived tame.not_torn
  have part := reader.delivery.recv.returned
  rw [tame.rbuf_empty stalled served, List.append_nil] at part
  rw [tame.rbuf_empty stalled served, stalled.arriving] at lengths
  rw [accepted, returned, delivered]
  exact part.eq_of_length (by simpa using lengths)

/-- If one side is not jammed, both channels are empty, and both sides only wait for window. -/
theorem Tame.both_stalled {client other : Bool} {capacity : Option Nat} {out inward : List Bytes}
    {sent received sent' received' : List Frame} (tame : Tame e) (tame' : Tame peer)
    (naming : Naming client e sent received) (naming' : Naming other peer sent' received')
    (positive : HasRoom capacity []) (idle : ¬ e.GoesOn capacity out)
    (idle' : ¬ peer.GoesOn capacity inward) (deaf : ¬ e.Takes inward) (deaf' : ¬ peer.Takes out)
    (served : ¬ e.Serves) (served' : ¬ peer.Serves) (free : ¬ e.Jammed capacity out) :
    (out = [] ∧ inward = []) ∧ Stalled e ∧ Stalled peer := by
  have done : e.loop = [] := by
    by_cases room : HasRoom capacity out
    · exact (tame.stalled naming room idle served).loop
    · exact tame.loop_done idle served room free
  obtain rfl := tame.channel_empty done deaf
  have stalled' := tame'.stalled naming' positive idle' served'
  obtain rfl := tame'.channel_empty stalled'.loop deaf'
  exact ⟨⟨rfl, rfl⟩, tame.stalled naming positive idle served, stalled'⟩

end Pair

/-! ### Runs -/

theorem newSession_initialWindow (cfg : Config) : 1 ≤ (newSession cfg).initialWindow := by
  simp only [newSession]
  split <;> omega

/-- A session with the window that its configuration stands for. -/
def Config.explicit (cfg : Config) : Config :=
  { cfg with initialWindow := (newSession cfg).initialWindow }

theorem Config.newEndpoint_explicit (cfg : Config) :
    newEndpoint cfg.explicit = newEndpoint cfg := by
  have positive := newSession_initialWindow cfg
  have window : (newSession cfg.explicit).initialWindow = (newSession cfg).initialWindow := by
    conv_lhs => rw [newSession]
    have given : ¬ ((newSession cfg).initialWindow : Int) ≤ 0 := by omega
    simp only [Config.explicit, given, if_false, Int.toNat_natCast]
  simp only [newEndpoint, newSession, Config.explicit] at window ⊢
  rw [window]
  rfl

/-- Moves of an application that serves every stream. -/
def Act.isServing (e : Endpoint) : Act → Bool
  | .openStream _ => decide (e.opened < maxOpened)
  | .read r n =>
    (e.heap r).all fun handle =>
      decide (handle.stream.unacked + (handle.stream.rbuf.take n).length < 2 ^ 32)
  | .close _ | .reset _ _ | .closeSession | .readError => false
  | _ => true

theorem Act.serving_of_isServing (e : Endpoint) (a : Act) (serving : a.isServing e = true) :
    a.Serving e := by
  cases a with
  | openStream openMeta =>
    exact ⟨trivial, by simpa [Act.isServing, Act.Within] using serving⟩
  | read r n =>
    refine ⟨trivial, fun handle present _ => ?_⟩
    simpa [Act.isServing, present] using serving
  | close r | reset r reason | closeSession | readError => cases serving
  | _ => exact ⟨trivial, trivial⟩

/-- A session whose streams start with a window of three bytes, and which sends one byte a frame. -/
def threeBytes (client : Bool) : Config := { client, initialWindow := 3, maxChunk := 1 }

/-- The client opens a stream and writes a byte on it, which the server reads. -/
def byteScript : List (Turn Act Act) :=
  [.left (.openStream []), .left (.step 0), .toRight, .right .stepLoop, .right .accept,
    .left (.write { id := 1 } [1, 2, 3]), .left (.step 1), .left (.step 1), .toRight,
    .right .stepLoop, .right (.read { id := 1 } 1)]

def byteRun : Option (State Endpoint Endpoint Bytes × Histories Bytes) :=
  playIn (goMachine.restrict Act.isServing) (goMachine.restrict Act.isServing) (some 1)
    (fun state => decide (state.left.loop = []))
    ({ left := newEndpoint (threeBytes true), right := newEndpoint (threeBytes false) }, {})
    byteScript

/-- Nobody goes on, as far as it can be computed. -/
def Endpoint.stops (capacity : Option Nat) (e : Endpoint) (channel : List Bytes) : Bool :=
  (e.loop :: e.threads).all fun
    | [] => true
    | task :: _ => (e.exec task).all fun move => decide (¬ Fits capacity channel move.out)

theorem Endpoint.not_goesOn {capacity : Option Nat} {e : Endpoint} {channel : List Bytes}
    (stops : e.stops capacity channel = true) : ¬ e.GoesOn capacity channel := by
  have each := List.all_eq_true.mp stops
  have blocked {task : Task} {rest : List Task} (among : task :: rest ∈ e.loop :: e.threads)
      {move : Move} (ran : e.exec task = some move) : ¬ Fits capacity channel move.out := by
    simpa [ran] using each _ among
  rintro ⟨a, after, out, rfl | ⟨k, rfl⟩, acted, fits⟩
  · simp only [Endpoint.act] at acted
    split at acted
    next task rest loop =>
      obtain ⟨move, ran, result⟩ := Option.map_eq_some_iff.mp acted
      cases result
      exact blocked (List.mem_cons.mpr (Or.inl loop.symm)) ran fits
    · cases acted
  · simp only [Endpoint.act] at acted
    split at acted
    next task rest found =>
      obtain ⟨move, ran, result⟩ := Option.map_eq_some_iff.mp acted
      cases result
      exact blocked (List.mem_cons_of_mem _ (List.mem_of_getElem? found)) ran fits
    · cases acted

/-- Both sides have a CREDIT on its way, and write two more bytes. -/
def deadlockScript : List (Turn Act Act) :=
  byteScript ++
    [.right (.write { id := 1 } [4, 5, 6]), .right (.step 1), .right (.step 1), .toLeft,
      .left .stepLoop, .left (.read { id := 1 } 1), .left (.step 2), .right (.step 0), .toRight,
      .toLeft, .left (.step 1), .right (.step 1)]

def deadlockRun : Option (State Endpoint Endpoint Bytes × Histories Bytes) :=
  play goMachine goMachine (some 1)
    ({ left := newEndpoint (threeBytes true), right := newEndpoint (threeBytes false) }, {})
    deadlockScript

/-- The objects of a side are those of the stream 1, if it opened at most this one and heard of no
other. -/
theorem Naming.only_first {client : Bool} {e : Endpoint} {sent received : List Frame}
    (naming : Naming client e sent received)
    (own : ∀ k < e.opened, localID client k = 1)
    (remote : ∀ frame ∈ received, frame.type = .fOpen → frame.streamID = 1) {r : Ref}
    (present : (e.heap r).isSome = true) : r = { id := 1 } := by
  have first := naming.ref_eq present
  have counted : 0 < e.gens r.id := Nat.zero_lt_of_lt ((naming.heap_iff r).mp present)
  rw [first]
  congr 1
  by_cases ours : Own client r.id
  · obtain ⟨k, bound, isLocal⟩ := naming.ownIDs ours counted
    rw [isLocal, own k bound]
  · have heard : 0 < received.countP (Frame.opens r.id) := by
      have := naming.remoteIDs ours
      omega
    obtain ⟨frame, among, opens⟩ := List.countP_pos_iff.mp heard
    simp only [Frame.opens, Bool.and_eq_true, beq_iff_eq] at opens
    rw [← opens.2, remote frame among opens.1]

end HelixKit.Stream
