/-
Purpose: What one stream sees of its session: what holds of one stream over its own pair of channels
  holds of every stream of the multiplexed connection.
Trusted boundary: none
-/
import HelixKit.Stream.Naming
import Mathlib.Data.Multiset.MapFold

namespace HelixKit.Stream

open HelixKit.Duplex

/-- The constants of a session. -/
structure Limits where
  initialWindow : Nat
  maxChunk : Nat
  creditThreshold : Nat
deriving DecidableEq, Repr

def GoSession.limits (session : GoSession) : Limits :=
  { initialWindow := session.initialWindow, maxChunk := session.maxChunk
    creditThreshold := session.creditThreshold }

/-- Whether a task works on the stream `id`.  Closing the transport is every
stream's concern. -/
def Task.concerns (id : UInt32) : Task → Bool
  | .writeFrame type other _ => type.OfStream && other == id
  | .openFrame r _ | .onStream r _ | .acceptSend r => r.id == id
  | .removeStream other => other == id
  | .closeTransport => true
  | .closeWithErr _ => false

/-- One stream's share of an endpoint: its object, whether the session's map
holds it, and what the read loop and the other goroutines have left to do on
it. -/
structure Strand where
  limits : Limits
  handle : Option Handle
  mapped : Bool
  closed : Bool
  transportClosed : Bool
  loop : List Task
  threads : Multiset (List Task)

def Endpoint.strand (id : UInt32) (e : Endpoint) : Strand where
  limits := e.session.limits
  handle := e.heap { id }
  mapped := (e.session.streams.lookup id).isSome
  closed := e.session.closed
  transportClosed := e.transportClosed
  loop := e.loop.filter (Task.concerns id)
  threads := (e.threads : Multiset (List Task)).map (List.filter (Task.concerns id))

/-- One task of the stream runs: the strand after it, how its goroutine goes
on, and what it sends. -/
inductive Strand.Runs (id : UInt32) (x : Strand) :
    Task → Strand → List Task → List Frame → Prop where
  | writeFrame {type : FrameType} {payload : Bytes} (ofStream : type.OfStream)
      (connected : x.transportClosed = false) :
      Runs id x (.writeFrame type id payload) x []
        [{ type, streamID := id, payload }]
  | writeFailed {type : FrameType} {payload : Bytes}
      (disconnected : x.transportClosed = true) :
      Runs id x (.writeFrame type id payload) x [] []
  | openFrame {openMeta : Bytes} {handle : Handle} (present : x.handle = some handle)
      (connected : x.transportClosed = false) :
      Runs id x (.openFrame { id } openMeta)
        { x with handle := some { handle with held := true } } []
        [{ type := .fOpen, streamID := id, payload := openMeta }]
  | openFailed {openMeta : Bytes} (disconnected : x.transportClosed = true) :
      Runs id x (.openFrame { id } openMeta) x [.removeStream id] []
  | onStream {op : StreamOp} {handle : Handle} {effect : StreamEffect}
      (present : x.handle = some handle)
      (ran : handle.stream.exec x.limits.maxChunk x.transportClosed op = some effect) :
      Runs id x (.onStream { id } op)
        { x with
          handle :=
            some
              { handle with
                stream := effect.stream
                accepted := handle.accepted ++ effect.data.getD [] } }
        (effect.continues.map (.onStream { id }) ++
          if effect.sendEnd then [.writeFrame .fEnd id []] else [])
        (effect.data.map fun data =>
          { type := .fData, streamID := id, payload := data }).toList
  | removeStream : Runs id x (.removeStream id) { x with mapped := false } [] []
  | acceptSend : Runs id x (.acceptSend { id }) x [] []
  | closeTransport : Runs id x .closeTransport { x with transportClosed := true } [] []

/-- One goroutine of the strand: what it has left to do, and how the strand is
put together again once it has gone on. -/
inductive Strand.Goroutine (x : Strand) :
    List Task → (List Task → Strand → Strand) → Prop where
  | thread {tasks : List Task} {others : Multiset (List Task)}
      (among : x.threads = tasks ::ₘ others) :
      Goroutine x tasks fun later ran => { ran with threads := later ::ₘ others }
  | loop : Goroutine x x.loop fun later ran => { ran with loop := later }

/-- The goroutines that the application's calls start on a stream. -/
inductive Call (id : UInt32) : List Task → Prop where
  | write (p : Bytes) : Call id [.onStream { id } (.write p)]
  | closeWrite : Call id [.onStream { id } .closeWrite]
  | signal (payload : Bytes) : Call id [.writeFrame .fSignal id payload]
  | close :
      Call id
        [.onStream { id } .closeWrite, .onStream { id } (.teardown .streamClosed),
          .removeStream id]
  | reset (reason : Bytes) :
      Call id
        [.writeFrame .fReset id reason,
          .onStream { id } (.teardown (.streamReset reason)), .removeStream id]

theorem Strand.Goroutine.putBack {x : Strand} {tasks : List Task}
    {put : List Task → Strand → Strand} (goroutine : x.Goroutine tasks put) :
    put tasks x = x := by
  cases goroutine with
  | thread among => simp [← among]
  | loop => rfl

/-- What `closeWithErr` has left to do for a stream. -/
def Strand.closing (x : Strand) (id : UInt32) (err : StreamErr) : List Task :=
  (if x.mapped then [.onStream { id } (.teardown err)] else []) ++ [.closeTransport]

/-- A read and the credit it sends afterwards. -/
def Strand.afterRead (x : Strand) (id : UInt32) (handle : Handle) (step : ReadStep) :
    Strand :=
  { x with
    handle :=
      some
        { handle with
          stream := step.stream, returned := handle.returned ++ step.result.data }
    threads :=
      if 0 < step.grant then
        [.writeFrame .fCredit id (encodeCredit (UInt32.ofNat step.grant))] ::ₘ x.threads
      else x.threads }

/-- Everything that a move of the session can do to one of its streams.  `own`
says that this side opens the stream; `Fits` is what every read meets. -/
inductive Strand.Step (Fits : Nat → Handle → Nat → Prop) (own : Prop) (id : UInt32)
    (x : Strand) : List Frame → Strand → Prop where
  | idle : Step Fits own id x [] x
  | run {task : Task} {rest more : List Task} {put : List Task → Strand → Strand}
      {ran : Strand} {out : List Frame} (goroutine : x.Goroutine (task :: rest) put)
      (runs : x.Runs id task ran more out) :
      Step Fits own id x out (put (more ++ rest) ran)
  | close {err : StreamErr} {tasks : List Task} {put : List Task → Strand → Strand}
      (notYet : x.closed = false) (goroutine : x.Goroutine tasks put) :
      Step Fits own id x []
        (put (x.closing id err ++ tasks) { x with closed := true, mapped := false })
  | startOther : Step Fits own id x [] { x with threads := [] ::ₘ x.threads }
  | call {tasks : List Task} {handle : Handle} (present : x.handle = some handle)
      (held : handle.held = true) (called : Call id tasks) :
      Step Fits own id x [] { x with threads := tasks ::ₘ x.threads }
  | create (openMeta : Bytes) (isOwn : own) (absent : x.handle = none) :
      Step Fits own id x []
        { x with
          handle := some { stream := newStream x.limits.initialWindow openMeta }
          mapped := true
          threads := [.openFrame { id } openMeta] ::ₘ x.threads }
  | accept {handle : Handle} (remote : ¬ own) (present : x.handle = some handle) :
      Step Fits own id x [] { x with handle := some { handle with held := true } }
  | read {n : Nat} {handle : Handle} {step : ReadStep}
      (present : x.handle = some handle) (held : handle.held = true)
      (fits : Fits x.limits.creditThreshold handle n)
      (ran : handle.stream.read x.limits.creditThreshold n = some step) :
      Step Fits own id x [] (x.afterRead id handle step)

/-- The operation that the read loop runs on a stream for one of its frames. -/
def Frame.op (frame : Frame) : Option StreamOp :=
  match frame.type with
  | .fData => some (.onData frame.payload)
  | .fEnd => some .onEnd
  | .fSignal => some (.onSignal frame.payload)
  | .fCredit => some (.onCredit (decodeCredit frame.payload))
  | _ => none

/-- What the arrival of one of its frames does to a stream. -/
inductive Strand.Receive (own : Prop) (id : UInt32) (x : Strand) :
    Frame → Strand → Prop where
  | opened {frame : Frame} (isOpen : frame.type = .fOpen) (remote : ¬ own)
      (absent : x.handle = none) :
      Receive own id x frame
        { x with
          handle := some { stream := newStream x.limits.initialWindow frame.payload }
          mapped := true
          loop := [.acceptSend { id }] }
  | forward {frame : Frame} {op : StreamOp} (registered : x.mapped = true)
      (isOp : frame.op = some op) :
      Receive own id x frame { x with loop := [.onStream { id } op] }
  | reset {frame : Frame} (isReset : frame.type = .fReset)
      (registered : x.mapped = true) :
      Receive own id x frame
        { x with loop := [.onStream { id } (.teardown .peerReset), .removeStream id] }
  | dropped {frame : Frame} (notOpen : frame.type ≠ .fOpen)
      (unregistered : x.mapped = false) : Receive own id x frame x

/-- What has to be shown of one stream, over its own pair of channels. -/
structure Strand.Contract (Fits : Nat → Handle → Nat → Prop) (own : Prop)
    (id : UInt32) (Inv PeerInv : Strand → List Frame → List Frame → Prop) :
    Prop where
  act : ∀ {x x' : Strand} {sent received out : List Frame},
    Inv x sent received → Rely PeerInv sent received →
      x.Step Fits own id out x' → Inv x' (sent ++ out) received
  receive : ∀ {x x' : Strand} {sent received : List Frame} {frame : Frame},
    Inv x sent received → Rely PeerInv sent (received ++ [frame]) →
      frame.isAbout id = true → x.loop = [] → x.Receive own id frame x' →
        Inv x' sent (received ++ [frame])

/-- Every stream of a session meets its invariant. -/
def SessionInv (client : Bool) (Inv : UInt32 → Strand → List Frame → List Frame → Prop)
    (e : Endpoint) (sent received : List Bytes) : Prop :=
  Naming client e (frames sent) (frames received) ∧
    ∀ id, Inv id (e.strand id) (about id (frames sent)) (about id (frames received))

/-- The moves of a session that has not run out of ids, and whose reads meet
`Fits`. -/
def Act.Within (Fits : Nat → Handle → Nat → Prop) (e : Endpoint) : Act → Prop
  | .openStream _ => e.opened < maxOpened
  | .read r n => ∀ handle, e.heap r = some handle →
      Fits e.session.creditThreshold handle n
  | _ => True

section Moves

variable {client : Bool} {e : Endpoint} {sent received : List Frame} {id : UInt32}

variable {r : Ref}

/-- Pointers to existing objects are first of their name. -/
theorem Naming.ref_eq (naming : Naming client e sent received)
    (present : (e.heap r).isSome = true) : r = { id := r.id } := by
  have before := (naming.heap_iff r).mp present
  have := naming.gens_le r.id
  obtain ⟨other, gen⟩ := r
  simp only [Ref.mk.injEq, true_and]
  simp only at before this
  omega

/-- A name is registered only for its one object. -/
theorem Naming.lookup_eq (naming : Naming client e sent received)
    (found : e.session.streams.lookup id = some r) : r = { id } := by
  obtain ⟨same, present⟩ := naming.registered found
  rw [naming.ref_eq present, same]

/-- The teardowns of a closing session, seen from one stream. -/
theorem Naming.teardowns_filter (naming : Naming client e sent received)
    (err : StreamErr) :
    (e.session.teardowns err).filter (Task.concerns id) =
      if (e.session.streams.lookup id).isSome then [.onStream { id } (.teardown err)]
      else [] := by
  have entriesKnown : ∀ entry ∈ e.session.streams.entries, entry.2 = { id := entry.1 } :=
    fun entry member => naming.lookup_eq (AList.mem_lookup_iff.mpr member)
  have nodup := e.session.streams.nodupKeys
  rw [GoSession.teardowns, AList.lookup]
  generalize e.session.streams.entries = entries at entriesKnown nodup
  induction entries with
  | nil => rfl
  | cons entry rest hypothesis =>
    obtain ⟨key, r⟩ := entry
    rw [List.nodupKeys_cons] at nodup
    have same : r = { id := key } := entriesKnown ⟨key, r⟩ (by simp)
    have tail := hypothesis (fun other member => entriesKnown other (by simp [member]))
      nodup.2
    subst same
    by_cases isID : key = id
    · subst isID
      have absent : List.dlookup key rest = none := List.dlookup_eq_none.mpr nodup.1
      simp [Task.concerns, tail, absent]
    · rw [List.dlookup_cons_ne _ _ (Ne.symm isID)]
      simpa [Task.concerns, isID] using tail

@[simp] theorem strand_setHandle (e : Endpoint) (id : UInt32) (handle : Handle) :
    (e.setHandle { id } handle).strand id =
      { e.strand id with handle := some handle } := by
  simp [Endpoint.strand, Endpoint.setHandle]

theorem strand_setHandle_ne (other : r.id ≠ id) (handle : Handle) :
    (e.setHandle r handle).strand id = e.strand id := by
  have : ({ id } : Ref) ≠ r := by
    rintro rfl
    exact other rfl
  simp [Endpoint.strand, Endpoint.setHandle, this]

variable {task : Task}

/-- A task that works on the stream runs as a task of its strand. -/
theorem Naming.exec_concerned {move : Move}
    (naming : Naming client e sent received) (member : task ∈ e.tasks)
    (ran : e.exec task = some move) (concerned : task.concerns id = true) :
    (e.strand id).Runs id task (move.after.strand id)
      (move.continues.filter (Task.concerns id)) (about id (frames move.out)) := by
  have known := naming.tasksKnown member
  cases task with
  | writeFrame type other payload =>
    simp only [Task.concerns, Bool.and_eq_true, beq_iff_eq] at concerned
    obtain ⟨ofStream, rfl⟩ := concerned
    cases ran
    cases closed : e.transportClosed with
    | true => simpa using .writeFailed closed
    | false =>
      simpa [about, Frame.isAbout, frames_encodeFrame (FrameType.OfStream.named ofStream),
        ofStream] using .writeFrame ofStream closed
  | openFrame r openMeta =>
    have same : r = { id } := by
      rw [naming.ref_eq (known r (by simp [Task.refs]))]
      simpa [Task.concerns] using concerned
    subst same
    simp only [Endpoint.exec] at ran
    split at ran
    next closed =>
      cases ran
      simpa [Task.concerns] using Strand.Runs.openFailed closed
    next connected =>
      obtain ⟨handle, present, rfl⟩ := Option.map_eq_some_iff.mp ran
      have runs : (e.strand id).Runs id (.openFrame { id } openMeta) _ _ _ :=
        .openFrame present (Bool.eq_false_of_not_eq_true connected)
      simpa [about, Frame.isAbout, FrameType.OfStream] using runs
  | onStream r op =>
    have same : r = { id } := by
      rw [naming.ref_eq (known r (by simp [Task.refs]))]
      simpa [Task.concerns] using concerned
    subst same
    obtain ⟨handle, present, ran⟩ := Option.bind_eq_some_iff.mp ran
    obtain ⟨effect, executed, rfl⟩ := Option.map_eq_some_iff.mp ran
    have runs : (e.strand id).Runs id (.onStream { id } op) _ _ _ :=
      .onStream present executed
    convert runs using 1
    · exact (strand_setHandle e id _ :)
    · cases effect.sendEnd <;>
        simp [Task.concerns, FrameType.OfStream]
    · cases effect.data <;> simp [about, Frame.isAbout, FrameType.OfStream]
  | removeStream other =>
    have same : other = id := by simpa [Task.concerns] using concerned
    subst same
    cases ran
    have runs : (e.strand other).Runs other (.removeStream other) _ _ _ := .removeStream
    simpa [Endpoint.strand, GoSession.limits] using runs
  | acceptSend r =>
    have same : r = { id } := by
      rw [naming.ref_eq (known r (by simp [Task.refs]))]
      simpa [Task.concerns] using concerned
    subst same
    simp only [Endpoint.exec] at ran
    split at ran
    · cases ran
      exact .acceptSend
    · split at ran <;> cases ran
      exact .acceptSend
  | closeWithErr err => cases concerned
  | closeTransport =>
    cases ran
    exact .closeTransport

/-- A task that works on another stream, or on none, leaves the strand alone. -/
theorem Naming.exec_unconcerned {move : Move}
    (naming : Naming client e sent received) (member : task ∈ e.tasks)
    (ran : e.exec task = some move) (unconcerned : task.concerns id = false)
    (stays : ∀ err, task ≠ .closeWithErr err) :
    move.after.strand id = e.strand id ∧
      move.continues.filter (Task.concerns id) = [] ∧
        about id (frames move.out) = [] := by
  cases task with
  | writeFrame type other payload =>
    cases ran
    refine ⟨rfl, rfl, ?_⟩
    have named := (naming.plain member).1
    simp only [Task.concerns] at unconcerned
    split
    · rfl
    · simp [frames_encodeFrame named, about, Frame.isAbout, unconcerned]
  | openFrame r openMeta =>
    have other : r.id ≠ id := by simpa [Task.concerns] using unconcerned
    simp only [Endpoint.exec] at ran
    split at ran
    · cases ran
      simp [Task.concerns, other]
    · obtain ⟨handle, present, rfl⟩ := Option.map_eq_some_iff.mp ran
      simp [strand_setHandle_ne other, about, Frame.isAbout, FrameType.OfStream, other]
  | onStream r op =>
    have other : r.id ≠ id := by simpa [Task.concerns] using unconcerned
    obtain ⟨handle, present, ran⟩ := Option.bind_eq_some_iff.mp ran
    obtain ⟨effect, ran, rfl⟩ := Option.map_eq_some_iff.mp ran
    refine ⟨(strand_setHandle_ne (e := e) other _ :), ?_, ?_⟩
    · cases effect.sendEnd <;> simp [Task.concerns, other]
    · cases effect.data <;> simp [about, Frame.isAbout, FrameType.OfStream, other]
  | removeStream other =>
    have differs : id ≠ other := by
      rintro rfl
      simp [Task.concerns] at unconcerned
    cases ran
    simp [Endpoint.strand, GoSession.limits, AList.lookup_erase_ne differs]
  | acceptSend r =>
    simp only [Endpoint.exec] at ran
    split at ran
    · cases ran
      exact ⟨rfl, rfl, rfl⟩
    · split at ran <;> cases ran
      exact ⟨rfl, rfl, rfl⟩
  | closeWithErr err => exact absurd rfl (stays err)
  | closeTransport => cases unconcerned

/-- Closing the session, seen from one stream. -/
theorem Naming.exec_close {err : StreamErr} {move : Move}
    (naming : Naming client e sent received) (id : UInt32)
    (ran : e.exec (.closeWithErr err) = some move) :
    (move.after = e ∧ move.continues = [] ∧ move.out = []) ∨
      e.session.closed = false ∧
        move.after.strand id = { e.strand id with closed := true, mapped := false } ∧
        move.continues.filter (Task.concerns id) = (e.strand id).closing id err ∧
        move.out = [] := by
  simp only [Endpoint.exec] at ran
  split at ran
  · cases ran
    exact Or.inl ⟨rfl, rfl, rfl⟩
  next notYet =>
    cases ran
    refine Or.inr ⟨Bool.eq_false_of_not_eq_true notYet, ?_, ?_, rfl⟩
    · simp [Endpoint.strand, GoSession.limits]
    · rw [List.filter_append, naming.teardowns_filter]
      rfl

/-- Replacing one goroutine's work. -/
theorem set_perm {α : Type*} {threads : List α} {k : Nat} {old : α}
    (found : threads[k]? = some old) :
    ∃ others, threads.Perm (old :: others) ∧
      ∀ new, (threads.set k new).Perm (new :: others) := by
  obtain ⟨inside, rfl⟩ := List.getElem?_eq_some_iff.mp found
  refine ⟨threads.take k ++ threads.drop (k + 1), ?_, ?_⟩
  · have split : threads = threads.take k ++ threads[k] :: threads.drop (k + 1) := by
      simp
    conv_lhs => rw [split]
    exact List.perm_middle
  · intro new
    rw [List.set_eq_take_append_cons_drop, if_pos inside]
    exact List.perm_middle

/-- A goroutine of the endpoint, as a goroutine of the strand. -/
theorem strand_thread (id : UInt32) {k : Nat} {tasks : List Task}
    (found : e.threads[k]? = some tasks) :
    ∃ put, (e.strand id).Goroutine (tasks.filter (Task.concerns id)) put ∧
      ∀ (after : Endpoint) (later : List Task),
        Endpoint.strand id { after with threads := e.threads.set k later } =
          put (later.filter (Task.concerns id)) (after.strand id) := by
  obtain ⟨others, before, now⟩ := set_perm found
  have among : (e.strand id).threads = tasks.filter (Task.concerns id) ::ₘ
      (others : Multiset (List Task)).map (List.filter (Task.concerns id)) := by
    rw [← Multiset.map_cons, Multiset.cons_coe, ← Multiset.coe_eq_coe.mpr before]
    rfl
  refine ⟨_, .thread among, ?_⟩
  intro after later
  simp only [Endpoint.strand, Strand.mk.injEq, true_and]
  rw [← Multiset.map_cons, Multiset.cons_coe, Multiset.coe_eq_coe.mpr (now later)]

/-- One task of one goroutine of the endpoint, seen from a stream. -/
theorem Naming.goroutine_step {Fits : Nat → Handle → Nat → Prop} {own : Prop}
    {rest : List Task} {move : Move} {put : List Task → Strand → Strand} {after : Endpoint}
    (naming : Naming client e sent received) (member : task ∈ e.tasks)
    (ran : e.exec task = some move)
    (goroutine : (e.strand id).Goroutine ((task :: rest).filter (Task.concerns id)) put)
    (now : after.strand id =
      put ((move.continues ++ rest).filter (Task.concerns id)) (move.after.strand id)) :
    (e.strand id).Step Fits own id (about id (frames move.out)) (after.strand id) := by
  have unchanged : put (rest.filter (Task.concerns id)) (e.strand id) = e.strand id →
      move.after.strand id = e.strand id →
        move.continues.filter (Task.concerns id) = [] →
          about id (frames move.out) = [] →
      (e.strand id).Step Fits own id (about id (frames move.out)) (after.strand id) := by
    intro putBack strand continues silent
    rw [now, List.filter_append, continues, strand, List.nil_append, putBack, silent]
    exact .idle
  cases concerned : task.concerns id with
  | true =>
    rw [now, List.filter_append]
    rw [List.filter_cons_of_pos concerned] at goroutine
    exact .run goroutine (naming.exec_concerned member ran concerned)
  | false =>
    rw [List.filter_cons_of_neg (by simp [concerned])] at goroutine
    by_cases closes : ∃ err, task = .closeWithErr err
    · obtain ⟨err, rfl⟩ := closes
      rcases naming.exec_close id ran with
        ⟨rfl, continues, out⟩ | ⟨notYet, strand, continues, out⟩
      · exact unchanged goroutine.putBack rfl (by simp [continues]) (by simp [out])
      · rw [now, List.filter_append, strand, continues, out]
        exact .close notYet goroutine
    · obtain ⟨strand, continues, silent⟩ := naming.exec_unconcerned member ran concerned
        (fun err isClose => closes ⟨err, isClose⟩)
      exact unchanged goroutine.putBack strand continues silent

theorem strand_spawn (e : Endpoint) (id : UInt32) (tasks : List Task) :
    (e.spawn tasks).strand id =
      { e.strand id with
        threads := tasks.filter (Task.concerns id) ::ₘ (e.strand id).threads } := by
  simp only [Endpoint.strand, Endpoint.spawn, Strand.mk.injEq, true_and]
  rw [← Multiset.map_cons, Multiset.cons_coe]
  exact congrArg _ (Multiset.coe_eq_coe.mpr (List.perm_append_singleton ..))

/-- A goroutine that starts on another stream, or on none. -/
theorem spawn_other {Fits : Nat → Handle → Nat → Prop} {own : Prop} {tasks : List Task}
    (other : tasks.filter (Task.concerns id) = []) :
    (e.strand id).Step Fits own id [] ((e.spawn tasks).strand id) := by
  rw [strand_spawn, other]
  exact .startOther

/-- A call of the application, seen from a stream. -/
theorem Naming.call_step {Fits : Nat → Handle → Nat → Prop} {own : Prop}
    {tasks : List Task} (naming : Naming client e sent received) (holds : e.holds r = true)
    (onIt : r = { id } → Call id tasks)
    (concern : ∀ task ∈ tasks, task.concerns id = (r.id == id)) :
    (e.strand id).Step Fits own id [] ((e.spawn tasks).strand id) := by
  obtain ⟨handle, present, held⟩ := Endpoint.holds_iff.mp holds
  by_cases isID : r.id = id
  · have same : r = { id } := by
      have first := naming.ref_eq (r := r) (by simp [present])
      rwa [isID] at first
    subst same
    rw [strand_spawn, List.filter_eq_self.mpr (by simpa using concern)]
    exact .call present held (onIt rfl)
  · have none : ∀ task ∈ tasks, task.concerns id = false := fun task member => by
      simp [concern task member, isID]
    exact spawn_other (List.filter_eq_nil_iff.mpr (by simpa using none))

/-- A `Read` of the application, seen from its stream. -/
theorem Naming.read_step {Fits : Nat → Handle → Nat → Prop} {n : Nat}
    {handle : Handle} {step : ReadStep} (naming : Naming client e sent received)
    (within : (Act.read r n).Within Fits e) (holds : e.holds r = true)
    (present : e.heap r = some handle)
    (ran : handle.stream.read e.session.creditThreshold n = some step) (isID : r.id = id) :
    r = { id } ∧ (e.strand id).Step Fits (Own client id) id (about id (frames []))
      ((e.strand id).afterRead id handle step) := by
  have first := naming.ref_eq (r := r) (by simp [present])
  rw [isID] at first
  subst first
  obtain ⟨handle', present', held⟩ := Endpoint.holds_iff.mp holds
  obtain rfl : handle = handle' := by simpa [present] using present'
  exact ⟨rfl, .read present held (within handle present) ran⟩

/-- Every call, timer and goroutine of a session is a move of each of its
streams. -/
theorem Naming.act_step {Fits : Nat → Handle → Nat → Prop} {after : Endpoint} {a : Act}
    {out : List Bytes} (naming : Naming client e sent received)
    (within : a.Within Fits e) (acted : e.act a = some (after, out)) :
    (e.strand id).Step Fits (Own client id) id (about id (frames out))
      (after.strand id) := by
  cases Endpoint.acted_of_act acted with
  | @openStream openMeta =>
    have unused : e.gens e.session.nextID = 0 := naming.nextUnused within
    simp only [unused]
    change (e.strand id).Step Fits (Own client id) id [] _
    by_cases isID : e.session.nextID = id
    · subst isID
      have absent : e.heap { id := e.session.nextID } = none := by
        rw [← Option.not_isSome_iff_eq_none, naming.heap_iff]
        simp [unused]
      have own : Own client e.session.nextID := naming.next ▸ localID_own ..
      have created : (e.strand e.session.nextID).Step Fits
        (Own client e.session.nextID) e.session.nextID [] _ :=
          .create openMeta own absent
      convert created using 1
      have spawned := congrArg Strand.threads (strand_spawn e e.session.nextID
        [.openFrame { id := e.session.nextID } openMeta])
      simp only [Task.concerns, BEq.rfl, List.filter_cons_of_pos, List.filter_nil]
        at spawned
      simp only [Endpoint.strand, Endpoint.create, unused, Strand.mk.injEq]
      exact ⟨rfl, by simp [GoSession.limits], by simp, trivial, trivial, trivial, spawned⟩
    · have spawned : (e.strand id).Step Fits (Own client id) id []
          ((e.spawn [.openFrame { id := e.session.nextID } openMeta]).strand id) :=
        spawn_other (by simp [Task.concerns, isID])
      convert spawned using 1
      simp [Endpoint.strand, Endpoint.spawn, Endpoint.create, GoSession.limits,
        Ne.symm isID]
  | @accept r rest handle offered present =>
    change (e.strand id).Step Fits (Own client id) id []
      ((e.setHandle r { handle with held := true }).strand id)
    by_cases isID : r.id = id
    · have first := naming.ref_eq (r := r) (by simp [present])
      rw [isID] at first
      subst first
      rw [strand_setHandle]
      have remote := (naming.acceptKnown (r := { id }) (by simp [offered])).2
      exact .accept remote present
    · rw [strand_setHandle_ne isID]
      exact .idle
  | @call a r tasks calls holds =>
    refine naming.call_step holds ?_ ?_
    · rintro rfl
      cases a <;> cases calls <;> constructor
    · cases a <;> cases calls <;> simp [Task.concerns, FrameType.OfStream]
  | @read r n handle step holds present ran none_ =>
    by_cases isID : r.id = id
    · obtain ⟨rfl, read⟩ := naming.read_step within holds present ran isID
      rw [strand_setHandle]
      simpa only [Strand.afterRead, if_neg none_] using read
    · rw [strand_setHandle_ne isID]
      exact .idle
  | @readGrant r n handle step holds present ran grants =>
    by_cases isID : r.id = id
    · obtain ⟨rfl, read⟩ := naming.read_step within holds present ran isID
      rw [strand_spawn, strand_setHandle]
      simpa only [Strand.afterRead, if_pos grants, Task.concerns, FrameType.OfStream,
        Bool.true_and, BEq.rfl, List.filter_cons_of_pos, List.filter_nil] using read
    · rw [← strand_setHandle_ne (e := e) isID]
      exact spawn_other (by simp [Task.concerns, isID])
  | closeSession | ping => exact spawn_other (by simp [Task.concerns, FrameType.OfStream])
  | readError idle =>
    have same : e.strand id =
        Endpoint.strand id
          { e with loop := [.closeWithErr .transport], readLoopDone := true } := by
      simp [Endpoint.strand, idle, Task.concerns]
    rw [← same]
    exact .idle
  | step found ran =>
    obtain ⟨put, goroutine, now⟩ := strand_thread id found
    refine naming.goroutine_step ?_ ran goroutine (now _ _)
    exact List.mem_append_right _
      (List.mem_flatten_of_mem (List.mem_of_getElem? found) (by simp))
  | @stepLoop task rest move found ran =>
    have goroutine := Strand.Goroutine.loop (x := e.strand id)
    rw [show (e.strand id).loop = (task :: rest).filter (Task.concerns id) by
      simp only [Endpoint.strand, found]] at goroutine
    exact naming.goroutine_step (by simp [Endpoint.tasks, found]) ran goroutine rfl

/-- Dispatch of a frame of the stream. -/
theorem Naming.dispatch_about {frame : Frame} (naming : Naming client e sent received)
    (ofStream : frame.type.OfStream = true) (isID : frame.streamID = id)
    (once : ∀ id, (received ++ [frame]).countP (Frame.opens id) ≤ 1)
    (foreign : ∀ {id}, 0 < (received ++ [frame]).countP (Frame.opens id) →
      ¬ Own client id) :
    (e.strand id).Receive (Own client id) id frame ((e.dispatch frame).strand id) := by
  subst isID
  have registered : ∀ {r}, e.session.streams.lookup frame.streamID = some r →
      r = { id := frame.streamID } ∧ (e.strand frame.streamID).mapped = true :=
    fun found => ⟨naming.lookup_eq found, by simp [Endpoint.strand, found]⟩
  cases kind : frame.type with
  | fOpen =>
    obtain ⟨remote, unused⟩ := naming.arrivalUnused kind once foreign
    have absent : e.heap { id := frame.streamID } = none := by
      rw [← Option.not_isSome_iff_eq_none, naming.heap_iff]
      simp [unused]
    convert Strand.Receive.opened (x := e.strand frame.streamID) kind remote absent using 1
    simp [Endpoint.dispatch, kind, Endpoint.strand, Endpoint.create, unused,
      GoSession.limits, Task.concerns]
  | fPing | fPong | unknown => simp [kind, FrameType.OfStream] at ofStream
  | fReset =>
    cases found : e.session.streams.lookup frame.streamID with
    | none =>
      simp only [Endpoint.dispatch, kind, found]
      exact .dropped (by simp [kind]) (by simp [Endpoint.strand, found])
    | some r =>
      obtain ⟨rfl, mapped⟩ := registered found
      convert Strand.Receive.reset (x := e.strand frame.streamID) kind mapped using 1
      simp [Endpoint.dispatch, kind, found, Endpoint.strand, Task.concerns]
  | _ =>
    cases found : e.session.streams.lookup frame.streamID with
    | none =>
      simp only [Endpoint.dispatch, kind, found]
      exact .dropped (by simp [kind]) (by simp [Endpoint.strand, found])
    | some r =>
      obtain ⟨rfl, mapped⟩ := registered found
      have isOp : ∃ op, frame.op = some op := by simp [Frame.op, kind]
      obtain ⟨op, isOp⟩ := isOp
      convert Strand.Receive.forward (x := e.strand frame.streamID) mapped isOp using 1
      simp only [Frame.op, kind, Option.some.injEq] at isOp
      simp [Endpoint.dispatch, kind, found, Endpoint.strand, Task.concerns, isOp]

/-- Dispatch of a frame of another stream, or of none. -/
theorem Naming.dispatch_other {frame : Frame} (naming : Naming client e sent received)
    (idle : e.loop = []) (other : frame.isAbout id = false) :
    (e.dispatch frame).strand id = e.strand id := by
  have start : ∀ {tasks : List Task}, tasks.filter (Task.concerns id) = [] →
      Endpoint.strand id { e with loop := tasks } = e.strand id := by
    intro tasks none
    simp [Endpoint.strand, idle, none]
  have differs : frame.type.OfStream = true → frame.streamID ≠ id := by
    intro ofStream isID
    simp [Frame.isAbout, ofStream, isID] at other
  have known : ∀ {r}, e.session.streams.lookup frame.streamID = some r →
      r.id = frame.streamID := fun found => (naming.registered found).1
  cases kind : frame.type with
  | fPong | unknown => simp [Endpoint.dispatch, kind]
  | fPing =>
    simp only [Endpoint.dispatch, kind]
    exact start (by simp [Task.concerns, FrameType.OfStream])
  | fOpen =>
    have apart := differs (by simp [kind, FrameType.OfStream])
    simp [Endpoint.dispatch, kind, Endpoint.strand, Endpoint.create, GoSession.limits,
      Task.concerns, idle, apart, Ne.symm apart]
  | _ =>
    have apart := differs (by simp [kind, FrameType.OfStream])
    simp only [Endpoint.dispatch, kind]
    split
    next r found => exact start (by simp [Task.concerns, known found, apart])
    · rfl

/-- Every arriving frame is an arrival of its own stream's strand, and leaves
the others alone. -/
theorem Naming.receive_step {after : Endpoint} {message : Bytes}
    (naming : Naming client e sent received) (id : UInt32)
    (arrived : e.receive message = some after)
    (once : ∀ id, (received ++ frames [message]).countP (Frame.opens id) ≤ 1)
    (foreign : ∀ {id}, 0 < (received ++ frames [message]).countP (Frame.opens id) →
      ¬ Own client id) :
    (∃ frame, about id (frames [message]) = [frame] ∧ frame.isAbout id = true ∧
        (e.strand id).loop = [] ∧
          (e.strand id).Receive (Own client id) id frame (after.strand id)) ∨
      about id (frames [message]) = [] ∧ after.strand id = e.strand id := by
  simp only [Endpoint.receive] at arrived
  split at arrived
  next idle =>
    cases decoded : decodeFrame message with
    | none =>
      simp only [decoded, Option.some.injEq] at arrived
      subst arrived
      exact Or.inr ⟨by simp [frames_of_garbage decoded], rfl⟩
    | some frame =>
      simp only [decoded, Option.some.injEq] at arrived
      subst arrived
      rw [frames_of_decode decoded] at once foreign ⊢
      have quiet : (e.strand id).loop = [] := by simp [Endpoint.strand, idle.1]
      by_cases isAbout : frame.isAbout id = true
      · refine Or.inl ⟨frame, by simp [about, isAbout], isAbout, quiet, ?_⟩
        obtain ⟨ofStream, isID⟩ : frame.type.OfStream = true ∧ frame.streamID = id := by
          simpa [Frame.isAbout] using isAbout
        exact naming.dispatch_about ofStream isID once foreign
      · refine Or.inr ⟨by simp [about, isAbout], ?_⟩
        exact naming.dispatch_other idle.1 (by simpa using isAbout)
  · cases arrived

end Moves

theorem Rely.ofStrand {client : Bool} {sent received : List Bytes}
    {Inv : UInt32 → Strand → List Frame → List Frame → Prop}
    (rely : Rely (SessionInv client Inv) sent received) (id : UInt32) :
    Rely (Inv id) (about id (frames sent)) (about id (frames received)) := by
  obtain ⟨peer, peerSent, peerReceived, inv, fromUs, toUs⟩ := rely
  exact ⟨_, _, _, inv.2 id, about_mono (frames_mono fromUs),
    about_mono (frames_mono toUs)⟩

/-- Streams that the other end opens: each once, and under its own ids. -/
def Foreign (client : Bool) (received : List Frame) : Prop :=
  (∀ id, received.countP (Frame.opens id) ≤ 1) ∧
    ∀ {id}, 0 < received.countP (Frame.opens id) → ¬ Own client id

/-- What has to be shown of one stream when its surroundings keep `Assumed` and
the moves of its side are `Polite` to it. -/
structure Strand.Keeps (Fits : Nat → Handle → Nat → Prop) (Polite : Strand → Strand → Prop)
    (own : Prop) (id : UInt32) (Inv : Strand → List Frame → List Frame → Prop)
    (Assumed : List Frame → List Frame → Prop) : Prop where
  act : ∀ {x x' : Strand} {sent received out : List Frame},
    Inv x sent received → Assumed sent received → x.Step Fits own id out x' →
      Polite x x' → Inv x' (sent ++ out) received
  receive : ∀ {x x' : Strand} {sent received : List Frame} {frame : Frame},
    Inv x sent received → Assumed sent (received ++ [frame]) →
      frame.isAbout id = true → x.loop = [] → x.Receive own id frame x' →
        Inv x' sent (received ++ [frame])

/-- What every stream keeps over its own channels, every session keeps, whoever
is at the other end. -/
theorem session_keeps {client : Bool} {Meets : Endpoint → Act → Prop}
    {Fits : Nat → Handle → Nat → Prop} {Polite : UInt32 → Strand → Strand → Prop}
    {Inv : UInt32 → Strand → List Frame → List Frame → Prop}
    {Assumed : UInt32 → List Frame → List Frame → Prop}
    {Around : List Bytes → List Bytes → Prop}
    (strand : ∀ id, Strand.Keeps Fits (Polite id) (Own client id) id (Inv id) (Assumed id))
    (within : ∀ {e a}, Meets e a → a.Within Fits e)
    (polite : ∀ {e a after out sent received}, Naming client e sent received → Meets e a →
      e.act a = some (after, out) → ∀ id, Polite id (e.strand id) (after.strand id))
    (foreign : ∀ {sent received}, Around sent received → Foreign client (frames received))
    (assumed : ∀ {sent received}, Around sent received → ∀ id,
      Assumed id (about id (frames sent)) (about id (frames received))) :
    Contract (goPartyWhen Meets) (SessionInv client Inv) Around where
  act := by
    rintro before after sent received out ⟨naming, inv⟩ around ⟨a, meets, acted⟩
    refine ⟨?_, fun id => ?_⟩
    · rw [frames_append]
      refine naming.act acted ?_
      rintro openMeta rfl
      exact within meets
    · rw [frames_append, about_append]
      exact (strand id).act (inv id) (assumed around id) (naming.act_step (within meets) acted)
        (polite naming meets acted id)
  receive := by
    rintro before after sent received out message ⟨naming, inv⟩ around moved
    obtain ⟨_, arrived, ⟨⟩⟩ := Option.map_eq_some_iff.mp moved
    have ofStrand := assumed around
    have theirs := foreign around
    rw [frames_append] at theirs
    obtain ⟨once, foreign⟩ := theirs
    rw [List.append_nil, SessionInv, frames_append]
    refine ⟨naming.receive arrived once foreign, fun id => ?_⟩
    rw [about_append]
    have here := ofStrand id
    rw [frames_append, about_append] at here
    rcases naming.receive_step id arrived once foreign with
      ⟨frame, one, isAbout, idle, receive⟩ | ⟨none, same⟩
    · rw [one] at here ⊢
      exact (strand id).receive (inv id) here isAbout idle receive
    · rw [none, same, List.append_nil]
      exact inv id

theorem Rely.foreign {client : Bool} {sent received : List Bytes}
    {Inv : UInt32 → Strand → List Frame → List Frame → Prop}
    (rely : Rely (SessionInv (!client) Inv) sent received) :
    Foreign client (frames received) := by
  obtain ⟨peer, peerSent, peerReceived, inv, -, toUs⟩ := rely
  exact inv.1.foreign (frames_mono toUs)

/-- What every stream keeps over its own channels, every session keeps. -/
theorem session_contract {client : Bool} {Fits : Nat → Handle → Nat → Prop}
    {Inv PeerInv : UInt32 → Strand → List Frame → List Frame → Prop}
    (strand : ∀ id, Strand.Contract Fits (Own client id) id (Inv id) (PeerInv id)) :
    Contract (goPartyWhen fun e a => a.Within Fits e) (SessionInv client Inv)
      (Rely (SessionInv (!client) PeerInv)) := by
  have keeps : ∀ id, Strand.Keeps Fits (fun _ _ => True) (Own client id) id (Inv id)
      (Rely (PeerInv id)) := fun id =>
    { act := fun inv rely step _ => (strand id).act inv rely step
      receive := (strand id).receive }
  exact session_keeps keeps id (fun _ _ _ _ => trivial) Rely.foreign Rely.ofStrand

theorem Endpoint.exec_opened {e : Endpoint} {task : Task} {move : Move}
    (ran : e.exec task = some move) : move.after.opened = e.opened := by
  cases task with
  | openFrame r openMeta =>
    simp only [Endpoint.exec] at ran
    split at ran
    · cases ran
      rfl
    · obtain ⟨handle, -, rfl⟩ := Option.map_eq_some_iff.mp ran
      rfl
  | onStream r op =>
    obtain ⟨handle, -, ran⟩ := Option.bind_eq_some_iff.mp ran
    obtain ⟨effect, -, rfl⟩ := Option.map_eq_some_iff.mp ran
    rfl
  | acceptSend r =>
    simp only [Endpoint.exec] at ran
    split at ran
    · cases ran
      rfl
    · split at ran <;> cases ran
      rfl
  | closeWithErr err =>
    simp only [Endpoint.exec] at ran
    split at ran <;> cases ran <;> rfl
  | _ =>
    cases ran
    rfl

/-- A session counts the streams it opens, and never down. -/
theorem Endpoint.act_opened {e after : Endpoint} {a : Act} {out : List Bytes}
    (acted : e.act a = some (after, out)) :
    after.opened = e.opened ∧ (∀ openMeta, a ≠ .openStream openMeta) ∨
      after.opened = e.opened + 1 := by
  cases Endpoint.acted_of_act acted with
  | openStream => exact Or.inr rfl
  | call calls => exact Or.inl ⟨rfl, by rintro openMeta rfl; cases calls⟩
  | step _ ran | stepLoop _ ran => exact Or.inl ⟨Endpoint.exec_opened ran, by simp⟩
  | _ => exact Or.inl ⟨rfl, by simp⟩

theorem Endpoint.receive_opened {e after : Endpoint} {message : Bytes}
    (arrived : e.receive message = some after) : after.opened = e.opened := by
  simp only [Endpoint.receive] at arrived
  split at arrived
  · split at arrived <;> cases arrived
    next frame _ =>
      simp only [Endpoint.dispatch]
      split <;> first | rfl | (split <;> rfl)
    · rfl
  · cases arrived

/-- A side that has opened at most `maxOpened` streams has never run out of
ids. -/
theorem goParty_within {e after : Endpoint} {out : List Bytes}
    (acted : goParty.act e out after) (fewer : after.opened ≤ maxOpened) :
    e.opened ≤ maxOpened ∧
      (goPartyWhen fun e a => a.Within (fun _ _ _ => True) e).act e out after := by
  obtain ⟨a, -, acted⟩ := acted
  rcases Endpoint.act_opened acted with ⟨same, other⟩ | more
  · refine ⟨same ▸ fewer, a, ?_, acted⟩
    cases a with
    | openStream openMeta => exact absurd rfl (other openMeta)
    | read r n => exact fun _ _ => trivial
    | _ => trivial
  · have room : e.opened < maxOpened := by omega
    refine ⟨room.le, a, ?_, acted⟩
    cases a with
    | openStream openMeta => exact room
    | read r n => exact fun _ _ => trivial
    | _ => trivial

theorem run_within {capacity : Option Nat} {left right : Endpoint}
    {state : State Endpoint Endpoint Bytes} {past : Histories Bytes}
    (run : Run goParty goParty capacity left right state past)
    (leftFewer : state.left.opened ≤ maxOpened)
    (rightFewer : state.right.opened ≤ maxOpened) :
    Run (goPartyWhen fun e a => a.Within (fun _ _ _ => True) e)
      (goPartyWhen fun e a => a.Within (fun _ _ _ => True) e) capacity left right
      state past := by
  induction run with
  | start => exact .start
  | next _ step previous =>
    cases step with
    | leftAct move room =>
      obtain ⟨fewer, within⟩ := goParty_within move leftFewer
      exact (previous fewer rightFewer).next (.leftAct within room)
    | rightAct move room =>
      obtain ⟨fewer, within⟩ := goParty_within move rightFewer
      exact (previous leftFewer fewer).next (.rightAct within room)
    | leftReceive head move room =>
      obtain ⟨after, arrived, ⟨⟩⟩ := Option.map_eq_some_iff.mp move
      have fewer := Endpoint.receive_opened arrived ▸ leftFewer
      exact (previous fewer rightFewer).next (.leftReceive head move room)
    | rightReceive head move room =>
      obtain ⟨after, arrived, ⟨⟩⟩ := Option.map_eq_some_iff.mp move
      have fewer := Endpoint.receive_opened arrived ▸ rightFewer
      exact (previous leftFewer fewer).next (.rightReceive head move room)

/-- What each stream keeps over its own channels holds in every run of two
sessions, a client and a server. -/
theorem session_run {Fits : Nat → Handle → Nat → Prop}
    {Inv : Prop → UInt32 → Strand → List Frame → List Frame → Prop}
    (strand : ∀ own id, Strand.Contract Fits own id (Inv own id) (Inv (¬ own) id))
    {leftCfg rightCfg : Config} (client : leftCfg.client = true)
    (server : rightCfg.client = false)
    (leftStart : ∀ id, Inv (Own true id) id ((newEndpoint leftCfg).strand id) [] [])
    (rightStart : ∀ id, Inv (Own false id) id ((newEndpoint rightCfg).strand id) [] [])
    {capacity : Option Nat} {state : State Endpoint Endpoint Bytes}
    {past : Histories Bytes}
    (run : Run (goPartyWhen fun e a => a.Within Fits e)
      (goPartyWhen fun e a => a.Within Fits e) capacity (newEndpoint leftCfg)
      (newEndpoint rightCfg) state past) :
    SessionInv true (fun id => Inv (Own true id) id) state.left past.leftSent
        past.leftReceived ∧
      SessionInv false (fun id => Inv (Own false id) id) state.right past.rightSent
        past.rightReceived := by
  have other : ∀ {side id}, (¬ Own side id) = Own (!side) id := propext not_own_iff
  refine Run.invariant ⟨Naming.start client, leftStart⟩
    ⟨Naming.start server, rightStart⟩ (session_contract fun id => ?_)
    (session_contract fun id => ?_) run
  · have contract := strand (Own true id) id
    rwa [other] at contract
  · have contract := strand (Own false id) id
    rwa [other] at contract

end HelixKit.Stream
