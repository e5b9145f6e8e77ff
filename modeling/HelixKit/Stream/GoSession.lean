/-
Purpose: The Go session (`linux/device/go/internal/stream/session.go`): the map
  of streams, the goroutines working on them, the read loop with its dispatch,
  and the session as one party of a connection.
Trusted boundary: none
-/
import Mathlib.Data.List.AList
import HelixKit.Lib.Duplex
import HelixKit.Stream.GoStream

namespace HelixKit.Stream

open HelixKit.Duplex

/-- `Config`, less the logger. -/
structure Config where
  client : Bool
  initialWindow : Int := 0
  maxChunk : Int := 0
deriving DecidableEq, Repr

/-- A `*Stream`: the id of the stream and the number of streams that this end
had created under that id before. -/
structure Ref where
  id : UInt32
  gen : Nat := 0
deriving DecidableEq, Repr

/-- `Session`. -/
structure GoSession where
  initialWindow : Nat
  maxChunk : Nat
  creditThreshold : Nat
  streams : AList (fun _ : UInt32 => Ref) := ∅
  nextID : UInt32
  accept : List Ref := []
  closed : Bool := false
  closeErr : Option StreamErr := none

/-- Capacity of the `accept` channel. -/
def acceptCapacity : Nat := 64

/-- The first id a side opens: the client takes odd ids, the server even ones. -/
def firstID (client : Bool) : UInt32 := if client then 1 else 2

def newSession (cfg : Config) : GoSession :=
  let initialWindow :=
    if cfg.initialWindow ≤ 0 then 256 * 1024 else cfg.initialWindow.toNat
  let maxChunk := if cfg.maxChunk ≤ 0 then 32 * 1024 else cfg.maxChunk.toNat
  { initialWindow, maxChunk
    creditThreshold := initialWindow / 2
    nextID := firstID cfg.client }

/-- A stream object and what its callers have seen of it: whether the
application has been handed the stream, the bytes its `Write`s accepted, and
the bytes its `Read`s returned. -/
structure Handle where
  stream : GoStream
  held : Bool := false
  accepted : Bytes := []
  returned : Bytes := []
deriving DecidableEq, Repr

/-- The remaining work of a goroutine, one critical section or one transport
write at a time. -/
inductive Task where
  | writeFrame (type : FrameType) (id : UInt32) (payload : Bytes)
  | openFrame (r : Ref) (openMeta : Bytes)
  | onStream (r : Ref) (op : StreamOp)
  | removeStream (id : UInt32)
  | acceptSend (r : Ref)
  | closeWithErr (err : StreamErr)
  | closeTransport
deriving DecidableEq, Repr

/-- One process: the session, its stream objects, the read loop and every other
goroutine that works on the session. -/
structure Endpoint where
  session : GoSession
  heap : Ref → Option Handle := fun _ => none
  gens : UInt32 → Nat := fun _ => 0
  opened : Nat := 0
  transportClosed : Bool := false
  panicked : Bool := false
  readLoopDone : Bool := false
  loop : List Task := []
  threads : List (List Task) := []

def newEndpoint (cfg : Config) : Endpoint := { session := newSession cfg }

/-- Allocate a stream object under `id` and register it, as `Open` and the
dispatch of OPEN do. -/
def Endpoint.create (e : Endpoint) (id : UInt32) (openMeta : Bytes) : Endpoint :=
  let r : Ref := { id, gen := e.gens id }
  { e with
    heap := Function.update e.heap r
      (some { stream := newStream e.session.initialWindow openMeta })
    gens := Function.update e.gens id (e.gens id + 1)
    session := { e.session with streams := e.session.streams.insert id r } }

def Endpoint.setHandle (e : Endpoint) (r : Ref) (handle : Handle) : Endpoint :=
  { e with heap := Function.update e.heap r (some handle) }

/-- The result of running one task: what the goroutine goes on with, and the
messages it wrote to the transport. -/
structure Move where
  after : Endpoint
  continues : List Task := []
  out : List Bytes := []

/-- The teardown of every registered stream, as `closeWithErr` runs it. -/
def GoSession.teardowns (session : GoSession) (err : StreamErr) : List Task :=
  session.streams.entries.map fun entry => .onStream entry.2 (.teardown err)

/-- Run one task.  `none` means that its goroutine waits. -/
def Endpoint.exec (e : Endpoint) : Task → Option Move
  | .writeFrame type id payload =>
    some
      { after := e
        out := if e.transportClosed then [] else [encodeFrame type id payload] }
  | .openFrame r openMeta =>
    if e.transportClosed then some { after := e, continues := [.removeStream r.id] }
    else
      (e.heap r).map fun handle =>
        { after := e.setHandle r { handle with held := true }
          out := [encodeFrame .fOpen r.id openMeta] }
  | .onStream r op =>
    (e.heap r).bind fun handle =>
      (handle.stream.exec e.session.maxChunk e.transportClosed op).map fun effect =>
        { after :=
            { e.setHandle r
                { handle with
                  stream := effect.stream
                  accepted := handle.accepted ++ effect.data.getD [] } with
              panicked := e.panicked || effect.panics }
          continues :=
            effect.continues.map (.onStream r) ++
              if effect.sendEnd then [.writeFrame .fEnd r.id []] else []
          out := (effect.data.map (encodeFrame .fData r.id)).toList }
  | .removeStream id =>
    some
      { after :=
          { e with
            session := { e.session with streams := e.session.streams.erase id } } }
  | .acceptSend r =>
    if e.session.accept.length < acceptCapacity then
      some
        { after :=
            { e with
              session := { e.session with accept := e.session.accept ++ [r] } } }
    else if e.session.closed then some { after := e }
    else none
  | .closeWithErr err =>
    if e.session.closed then some { after := e }
    else
      some
        { after :=
            { e with
              session :=
                { e.session with
                  closed := true, closeErr := some err, streams := ∅ } }
          continues := e.session.teardowns err ++ [.closeTransport] }
  | .closeTransport => some { after := { e with transportClosed := true } }

/-- The calls an application makes, the timers, and the goroutines going on. -/
inductive Act where
  | openStream (openMeta : Bytes)
  | accept
  | write (r : Ref) (p : Bytes)
  | read (r : Ref) (n : Nat)
  | closeWrite (r : Ref)
  | signal (r : Ref) (payload : Bytes)
  | close (r : Ref)
  | reset (r : Ref) (reason : Bytes)
  | closeSession
  | ping
  | readError
  | step (thread : Nat)
  | stepLoop
deriving DecidableEq, Repr

def Endpoint.spawn (e : Endpoint) (tasks : List Task) : Endpoint :=
  { e with threads := e.threads ++ [tasks] }

/-- Whether the application has been handed the stream. -/
def Endpoint.holds (e : Endpoint) (r : Ref) : Bool :=
  ((e.heap r).map Handle.held).getD false

/-- The goroutine of a call on a stream the application holds. -/
def Endpoint.call (e : Endpoint) (r : Ref) (tasks : List Task) :
    Option (Endpoint × List Bytes) :=
  if e.holds r then some (e.spawn tasks, []) else none

theorem Endpoint.holds_iff {e : Endpoint} {r : Ref} :
    e.holds r = true ↔ ∃ handle, e.heap r = some handle ∧ handle.held = true := by
  cases found : e.heap r <;> simp [Endpoint.holds, found]

theorem Endpoint.call_eq_some {e after : Endpoint} {r : Ref} {tasks : List Task}
    {out : List Bytes} :
    e.call r tasks = some (after, out) ↔
      e.holds r = true ∧ after = e.spawn tasks ∧ out = [] := by
  unfold Endpoint.call
  by_cases held : e.holds r = true <;> simp [held, eq_comm]

/-- The stream that a call is for, and what its goroutine does. -/
def Act.calls : Act → Option (Ref × List Task)
  | .write r p => some (r, [.onStream r (.write p)])
  | .closeWrite r => some (r, [.onStream r .closeWrite])
  | .signal r payload => some (r, [.writeFrame .fSignal r.id payload])
  | .close r =>
    some (r, [.onStream r .closeWrite, .onStream r (.teardown .streamClosed), .removeStream r.id])
  | .reset r reason =>
    some (r, [.writeFrame .fReset r.id reason, .onStream r (.teardown (.streamReset reason)),
      .removeStream r.id])
  | _ => none

def Endpoint.act (e : Endpoint) : Act → Option (Endpoint × List Bytes)
  | .openStream openMeta =>
    if e.session.closed then none
    else
      let id := e.session.nextID
      let r : Ref := { id, gen := e.gens id }
      let registered := e.create id openMeta
      some
        ({ registered with
            session := { registered.session with nextID := id + 2 }
            opened := e.opened + 1
            threads := e.threads ++ [[.openFrame r openMeta]] }, [])
  | .accept =>
    match e.session.accept with
    | [] => none
    | r :: rest =>
      (e.heap r).map fun handle =>
        ({ e.setHandle r { handle with held := true } with
            session := { e.session with accept := rest } }, [])
  | .write r p => e.call r [.onStream r (.write p)]
  | .read r n =>
    if e.holds r then
      (e.heap r).bind fun handle =>
        (handle.stream.read e.session.creditThreshold n).map fun step =>
          let after :=
            e.setHandle r
              { handle with
                stream := step.stream
                returned := handle.returned ++ step.result.data }
          (if 0 < step.grant then
            after.spawn
              [.writeFrame .fCredit r.id (encodeCredit (UInt32.ofNat step.grant))]
          else after, [])
    else none
  | .closeWrite r => e.call r [.onStream r .closeWrite]
  | .signal r payload => e.call r [.writeFrame .fSignal r.id payload]
  | .close r =>
    e.call r
      [.onStream r .closeWrite, .onStream r (.teardown .streamClosed),
        .removeStream r.id]
  | .reset r reason =>
    e.call r
      [.writeFrame .fReset r.id reason,
        .onStream r (.teardown (.streamReset reason)), .removeStream r.id]
  | .closeSession => some (e.spawn [.closeWithErr .sessionClosed], [])
  | .ping =>
    if e.session.closed then none
    else some (e.spawn [.writeFrame .fPing 0 []], [])
  | .readError =>
    if e.loop = [] ∧ e.readLoopDone = false then
      some
        ({ e with loop := [.closeWithErr .transport], readLoopDone := true }, [])
    else none
  | .step thread =>
    match e.threads[thread]? with
    | some (task :: rest) =>
      (e.exec task).map fun move =>
        ({ move.after with
            threads := e.threads.set thread (move.continues ++ rest) }, move.out)
    | _ => none
  | .stepLoop =>
    match e.loop with
    | task :: rest =>
      (e.exec task).map fun move =>
        ({ move.after with loop := move.continues ++ rest }, move.out)
    | [] => none

/-- The moves that there are, with what is left of the endpoint and what is written. -/
inductive Endpoint.Acted (e : Endpoint) : Act → Endpoint → List Bytes → Prop
  | openStream {openMeta : Bytes} (alive : e.session.closed = false) :
      e.Acted (.openStream openMeta)
        { e.create e.session.nextID openMeta with
          session :=
            { (e.create e.session.nextID openMeta).session with
              nextID := e.session.nextID + 2 }
          opened := e.opened + 1
          threads :=
            e.threads ++
              [[.openFrame { id := e.session.nextID, gen := e.gens e.session.nextID } openMeta]] }
        []
  | accept {r : Ref} {rest : List Ref} {handle : Handle} (offered : e.session.accept = r :: rest)
      (present : e.heap r = some handle) :
      e.Acted .accept
        { e.setHandle r { handle with held := true } with
          session := { e.session with accept := rest } } []
  | call {a : Act} {r : Ref} {tasks : List Task} (calls : a.calls = some (r, tasks))
      (holds : e.holds r = true) : e.Acted a (e.spawn tasks) []
  | read {r : Ref} {n : Nat} {handle : Handle} {step : ReadStep} (holds : e.holds r = true)
      (present : e.heap r = some handle)
      (ran : handle.stream.read e.session.creditThreshold n = some step)
      (keeps : ¬ 0 < step.grant) :
      e.Acted (.read r n)
        (e.setHandle r
          { handle with
            stream := step.stream
            returned := handle.returned ++ step.result.data }) []
  | readGrant {r : Ref} {n : Nat} {handle : Handle} {step : ReadStep} (holds : e.holds r = true)
      (present : e.heap r = some handle)
      (ran : handle.stream.read e.session.creditThreshold n = some step) (grants : 0 < step.grant) :
      e.Acted (.read r n)
        ((e.setHandle r
          { handle with
            stream := step.stream
            returned := handle.returned ++ step.result.data }).spawn
          [.writeFrame .fCredit r.id (encodeCredit (UInt32.ofNat step.grant))]) []
  | closeSession : e.Acted .closeSession (e.spawn [.closeWithErr .sessionClosed]) []
  | ping : e.Acted .ping (e.spawn [.writeFrame .fPing 0 []]) []
  | readError (idle : e.loop = []) :
      e.Acted .readError { e with loop := [.closeWithErr .transport], readLoopDone := true } []
  | step {k : Nat} {task : Task} {rest : List Task} {move : Move}
      (found : e.threads[k]? = some (task :: rest)) (ran : e.exec task = some move) :
      e.Acted (.step k)
        { move.after with threads := e.threads.set k (move.continues ++ rest) } move.out
  | stepLoop {task : Task} {rest : List Task} {move : Move} (found : e.loop = task :: rest)
      (ran : e.exec task = some move) :
      e.Acted .stepLoop { move.after with loop := move.continues ++ rest } move.out

theorem Endpoint.acted_of_act {e after : Endpoint} {a : Act} {out : List Bytes}
    (acted : e.act a = some (after, out)) : e.Acted a after out := by
  cases a with
  | openStream openMeta =>
    simp only [Endpoint.act] at acted
    split at acted
    · cases acted
    next alive =>
      cases acted
      exact .openStream (by simpa using alive)
  | accept =>
    simp only [Endpoint.act] at acted
    split at acted
    · cases acted
    next offered =>
      obtain ⟨handle, present, result⟩ := Option.map_eq_some_iff.mp acted
      cases result
      exact .accept offered present
  | read r n =>
    simp only [Endpoint.act] at acted
    split at acted
    next holds =>
      obtain ⟨handle, present, acted⟩ := Option.bind_eq_some_iff.mp acted
      obtain ⟨step, ran, result⟩ := Option.map_eq_some_iff.mp acted
      by_cases grants : 0 < step.grant
      · rw [if_pos grants] at result
        cases result
        exact .readGrant holds present ran grants
      · rw [if_neg grants] at result
        cases result
        exact .read holds present ran grants
    · cases acted
  | closeSession =>
    cases acted
    exact .closeSession
  | ping =>
    simp only [Endpoint.act] at acted
    split at acted <;> cases acted
    exact .ping
  | readError =>
    simp only [Endpoint.act] at acted
    split at acted <;> cases acted
    next idle => exact .readError idle.1
  | step k =>
    simp only [Endpoint.act] at acted
    split at acted
    next found =>
      obtain ⟨move, ran, result⟩ := Option.map_eq_some_iff.mp acted
      cases result
      exact .step found ran
    · cases acted
  | stepLoop =>
    simp only [Endpoint.act] at acted
    split at acted
    next found =>
      obtain ⟨move, ran, result⟩ := Option.map_eq_some_iff.mp acted
      cases result
      exact .stepLoop found ran
    · cases acted
  | _ =>
    obtain ⟨holds, rfl, rfl⟩ := Endpoint.call_eq_some.mp acted
    exact .call rfl holds

/-- The operation of a stream that is registered under an id, if there is one. -/
def Endpoint.forward (e : Endpoint) (id : UInt32) (op : StreamOp) : Endpoint :=
  match e.session.streams.lookup id with
  | some r => { e with loop := [.onStream r op] }
  | none => e

/-- `dispatch`: what the read loop does for one frame. -/
def Endpoint.dispatch (e : Endpoint) (frame : Frame) : Endpoint :=
  let forward (op : StreamOp) : Endpoint :=
    match e.session.streams.lookup frame.streamID with
    | some r => { e with loop := [.onStream r op] }
    | none => e
  match frame.type with
  | .fPing => { e with loop := [.writeFrame .fPong 0 []] }
  | .fPong => e
  | .fOpen =>
    { e.create frame.streamID frame.payload with
      loop := [.acceptSend { id := frame.streamID, gen := e.gens frame.streamID }] }
  | .fData => forward (.onData frame.payload)
  | .fEnd => forward .onEnd
  | .fReset =>
    match e.session.streams.lookup frame.streamID with
    | some r =>
      { e with
        loop :=
          [.onStream r (.teardown .peerReset), .removeStream frame.streamID] }
    | none => e
  | .fSignal => forward (.onSignal frame.payload)
  | .fCredit => forward (.onCredit (decodeCredit frame.payload))
  | .unknown _ => e

/-- The read loop takes a message once it is done with the one before, until an
error ends it. -/
def Endpoint.receive (e : Endpoint) (message : Bytes) : Option Endpoint :=
  if e.loop = [] ∧ e.readLoopDone = false ∧ e.transportClosed = false then
    match decodeFrame message with
    | some frame => some (e.dispatch frame)
    | none => some e
  else none

/-- A Go session as one end of a connection. -/
def goMachine : Machine Endpoint Act Bytes where
  act := Endpoint.act
  receive e message := (e.receive message).map (·, [])

/-- A Go session of which every move by itself meets `Meets`. -/
def goPartyWhen (Meets : Endpoint → Act → Prop) : Party Endpoint Bytes :=
  goMachine.party Meets

def goParty : Party Endpoint Bytes := goMachine.party fun _ _ => True

theorem goParty_act {e after : Endpoint} {a : Act} {out : List Bytes}
    (acted : e.act a = some (after, out)) : goParty.act e out after :=
  ⟨a, trivial, acted⟩

end HelixKit.Stream
