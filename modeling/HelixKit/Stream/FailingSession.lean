/-
Purpose: The Go session over a transport whose writes may fail
  (`linux/device/go/internal/stream/session.go` and `stream.go`): a failed write runs
  `closeWithErr` on its goroutine, with the locks that it holds.
Trusted boundary: none
-/
import HelixKit.Lib.Runs
import HelixKit.Stream.GoSession

namespace HelixKit.Stream.Failing

open HelixKit.Runs

/-! ### Jobs -/

/-- How far the session's `closeOnce` is. -/
inductive Once where
  | free
  | running
  | done
deriving DecidableEq, Repr

/-- The remaining work of a goroutine, one critical section or one transport
write at a time.  `writeFailed` is the rest of a `Write` whose frame failed; it
and `writing` hold the stream's send mutex.  `teardownDone` and `closeDone` end
the functions that run under the stream's and the session's `closeOnce`. -/
inductive Job where
  | openStream (openMeta : Bytes)
  | openFrame (r : Ref) (openMeta : Bytes)
  | accept
  | read (r : Ref) (n : Nat)
  | onStream (r : Ref) (op : StreamOp)
  | writeFailed (r : Ref)
  | writeFrame (type : FrameType) (id : UInt32) (payload : Bytes)
  | teardownDone (r : Ref)
  | closeWithErr (err : StreamErr)
  | dropStreams (err : StreamErr)
  | closeTransport
  | closeDone
  | removeStream (id : UInt32)
  | acceptSend (r : Ref)
deriving DecidableEq, Repr

/-- What the goroutines share.  `tearing r` says that a goroutine runs the
teardown of `r`; `failed` that a write of the transport has failed. -/
structure Core where
  session : GoSession
  heap : Ref → Option GoStream := fun _ => none
  gens : UInt32 → Nat := fun _ => 0
  once : Once := .free
  tearing : Ref → Bool := fun _ => false
  transportClosed : Bool := false
  failed : Bool := false
  panicked : Bool := false

/-- What a call returns: that it has done its work, or an error. -/
inductive Answer where
  | ok
  | error (err : StreamErr)
deriving DecidableEq, Repr

def Answer.ofErr : Option StreamErr → Answer
  | some err => .error err
  | none => .ok

/-- The result of running one job: what the goroutine goes on with, whether its
transport write failed, and what its call returns if that is decided. -/
structure Outcome where
  after : Core
  continues : List Job := []
  failed : Bool := false
  answer : Option Answer := none

/-- What `Write` returns with `p` left to send. -/
def writeAnswer (st : GoStream) (p : Bytes) : Answer :=
  if p = [] then .ok else .error (st.serr.getD .streamClosed)

/-- What the call returns after its critical section. -/
def sectionAnswer (maxChunk : Nat) (st : GoStream) (effect : StreamEffect) :
    StreamOp → Option Answer
  | .write p => if effect.continues = [] then some (writeAnswer st p) else none
  | .writing p =>
    if effect.continues = [] then
      some (writeAnswer effect.stream (p.drop (st.chunk maxChunk p)))
    else none
  | .closeWrite => if effect.sendEnd then none else some .ok
  | _ => none

def readAnswer : ReadResult → Answer
  | .bytes _ | .eof => .ok
  | .failed err => .error err

def Core.setStream (c : Core) (r : Ref) (st : GoStream) : Core :=
  { c with heap := Function.update c.heap r (some st) }

/-- Allocate a stream object under `id` and register it. -/
def Core.create (c : Core) (id : UInt32) (openMeta : Bytes) : Core :=
  let r : Ref := { id, gen := c.gens id }
  { c.setStream r (newStream c.session.initialWindow openMeta) with
    gens := Function.update c.gens id (c.gens id + 1)
    session := { c.session with streams := c.session.streams.insert id r } }

/-- `writeFrame`, followed by `later` if it fails. -/
def Core.send (c : Core) (delivered : Bool) (later : List Job) : Outcome :=
  if delivered && !c.transportClosed then { after := c, answer := some .ok }
  else
    { after := { c with failed := true }
      continues := .closeWithErr .transport :: later
      failed := true
      answer := some (.error .transport) }

/-- A critical section on a stream. -/
def Core.critical (c : Core) (r : Ref) (op : StreamOp) : Option Outcome :=
  (c.heap r).bind fun st =>
    (st.exec c.session.maxChunk false op).map fun effect =>
      { after :=
          { c.setStream r effect.stream with panicked := c.panicked || effect.panics }
        continues :=
          effect.continues.map (.onStream r) ++
            if effect.sendEnd then [.writeFrame .fEnd r.id []] else []
        answer := sectionAnswer c.session.maxChunk st effect op }

/-- The head of `teardown`: wait while another goroutine runs it, return if one
has, and else run it. -/
def Core.teardown (c : Core) (r : Ref) (err : StreamErr) : Option Outcome :=
  if c.tearing r then none
  else
    (c.heap r).map fun st =>
      if st.closeOnce then { after := c }
      else
        { after :=
            { c.setStream r { st with closeOnce := true } with
              tearing := Function.update c.tearing r true }
          continues :=
            [.onStream r (.teardownRecv err), .onStream r (.teardownSend err),
              .onStream r .closeSignals, .teardownDone r] }

/-- Run one job; `delivered` says whether the transport takes its frame.  `none`
means that the goroutine waits. -/
def Core.exec (c : Core) (delivered : Bool) : Job → Option Outcome
  | .openStream openMeta =>
    if c.session.closed then some { after := c, answer := some (.error .sessionClosed) }
    else
      let id := c.session.nextID
      let created := c.create id openMeta
      some
        { after := { created with session := { created.session with nextID := id + 2 } }
          continues := [.openFrame { id, gen := c.gens id } openMeta] }
  | .openFrame r _ => some (c.send delivered [.removeStream r.id])
  | .accept =>
    match c.session.accept with
    | _ :: rest =>
      some
        { after := { c with session := { c.session with accept := rest } }
          answer := some .ok }
    | [] =>
      if c.session.closed then
        some { after := c, answer := some (.ofErr c.session.closeErr) }
      else none
  | .read r n =>
    (c.heap r).bind fun st =>
      (st.read c.session.creditThreshold n).map fun step =>
        { after := c.setStream r step.stream
          continues :=
            if 0 < step.grant then
              [.writeFrame .fCredit r.id (encodeCredit (UInt32.ofNat step.grant))]
            else []
          answer := some (readAnswer step.result) }
  | .onStream r (.writing p) =>
    if delivered && !c.transportClosed then c.critical r (.writing p)
    else some (c.send false [.writeFailed r])
  | .onStream r (.teardown err) => c.teardown r err
  | .onStream r op => c.critical r op
  | .writeFailed r =>
    (c.heap r).map fun st =>
      { after := c.setStream r { st with serr := some .transport, smu := false } }
  | .writeFrame _ _ _ => some (c.send delivered [])
  | .teardownDone r => some { after := { c with tearing := Function.update c.tearing r false } }
  | .closeWithErr err =>
    match c.once with
    | .running => none
    | .done => some { after := c }
    | .free =>
      some
        { after :=
            { c with
              once := .running
              session := { c.session with closed := true, closeErr := some err } }
          continues := [.dropStreams err, .closeTransport, .closeDone] }
  | .dropStreams err =>
    some
      { after := { c with session := { c.session with streams := ∅ } }
        continues :=
          c.session.streams.entries.map fun entry => .onStream entry.2 (.teardown err) }
  | .closeTransport => some { after := { c with transportClosed := true } }
  | .closeDone => some { after := { c with once := .done } }
  | .removeStream id =>
    some
      { after :=
          { c with session := { c.session with streams := c.session.streams.erase id } } }
  | .acceptSend r =>
    if c.session.accept.length < acceptCapacity then
      some
        { after := { c with session := { c.session with accept := c.session.accept ++ [r] } } }
    else if c.session.closed then some { after := c }
    else none

/-! ### Goroutines -/

/-- The calls of an application, and the ping of the timer. -/
inductive Call where
  | openStream (openMeta : Bytes)
  | accept
  | write (r : Ref) (p : Bytes)
  | read (r : Ref) (n : Nat)
  | closeWrite (r : Ref)
  | signal (r : Ref) (payload : Bytes)
  | close (r : Ref)
  | reset (r : Ref) (reason : Bytes)
  | closeSession
  | ping
deriving DecidableEq, Repr

def Call.jobs : Call → List Job
  | .openStream openMeta => [.openStream openMeta]
  | .accept => [.accept]
  | .write r p => [.onStream r (.write p)]
  | .read r n => [.read r n]
  | .closeWrite r => [.onStream r .closeWrite]
  | .signal r payload => [.writeFrame .fSignal r.id payload]
  | .close r =>
    [.onStream r .closeWrite, .onStream r (.teardown .streamClosed), .removeStream r.id]
  | .reset r reason =>
    [.writeFrame .fReset r.id reason, .onStream r (.teardown (.streamReset reason)),
      .removeStream r.id]
  | .closeSession => [.closeWithErr .sessionClosed]
  | .ping => [.writeFrame .fPing 0 []]

/-- The stream that a call is made on. -/
def Call.stream : Call → Option Ref
  | .write r _ | .read r _ | .closeWrite r | .signal r _ | .close r | .reset r _ => some r
  | _ => none

/-- The calls that return an error if they fail. -/
def Call.answers : Call → Bool
  | .openStream _ | .accept | .write _ _ | .read _ _ | .closeWrite _ | .signal _ _ => true
  | _ => false

/-- The calls that return the error of their transport write.  `Read` returns
the bytes it has taken, and `Close` and `Reset` return no error. -/
def Call.reports : Call → Bool
  | .openStream _ | .write _ _ | .closeWrite _ | .signal _ _ => true
  | _ => false

/-- A call, what it has left to do, whether a transport write of its own failed,
and what it returns once that is decided. -/
structure Goroutine where
  call : Call
  jobs : List Job
  failed : Bool := false
  answer : Option Answer := none
deriving DecidableEq, Repr

/-- One process: the session, its read loop and the goroutines of the calls. -/
structure Process where
  core : Core
  readLoopDone : Bool := false
  loop : List Job := []
  threads : List Goroutine := []

def newProcess (cfg : Config) : Process := { core := { session := newSession cfg } }

/-- The operation of a stream that is registered under an id, if there is one. -/
def Process.forward (p : Process) (id : UInt32) (op : StreamOp) : Process :=
  match p.core.session.streams.lookup id with
  | some r => { p with loop := [.onStream r op] }
  | none => p

/-- `dispatch`: the read loop's work for one frame. -/
def Process.dispatch (p : Process) (frame : Frame) : Process :=
  let c := p.core
  let forward (op : StreamOp) : Process :=
    match c.session.streams.lookup frame.streamID with
    | some r => { p with loop := [.onStream r op] }
    | none => p
  match frame.type with
  | .fPing => { p with loop := [.writeFrame .fPong 0 []] }
  | .fOpen =>
    { p with
      core := c.create frame.streamID frame.payload
      loop := [.acceptSend { id := frame.streamID, gen := c.gens frame.streamID }] }
  | .fData => forward (.onData frame.payload)
  | .fEnd => forward .onEnd
  | .fReset =>
    match c.session.streams.lookup frame.streamID with
    | some r =>
      { p with
        loop := [.onStream r (.teardown .peerReset), .removeStream frame.streamID] }
    | none => p
  | .fSignal => forward (.onSignal frame.payload)
  | .fCredit => forward (.onCredit (decodeCredit frame.payload))
  | .fPong | .unknown _ => p

/-- What can happen at this end. -/
inductive Event where
  | call (c : Call)
  | step (thread : Nat) (delivered : Bool)
  | stepLoop (delivered : Bool)
  | receive (message : Bytes)
  | readError
deriving DecidableEq, Repr

/-- The goroutine after one of its jobs. -/
def Goroutine.ran (g : Goroutine) (outcome : Outcome) (rest : List Job) : Goroutine :=
  { g with
    jobs := outcome.continues ++ rest
    failed := g.failed || outcome.failed
    answer := if g.call.answers then g.answer <|> outcome.answer else none }

/-- An event that cannot happen changes nothing; after a panic nothing
happens. -/
def step (p : Process) (event : Event) : Process :=
  if p.core.panicked then p
  else
    match event with
    | .call call =>
      if ∀ r, call.stream = some r → (p.core.heap r).isSome then
        { p with threads := p.threads ++ [{ call, jobs := call.jobs }] }
      else p
    | .step n delivered =>
      match p.threads[n]? with
      | some { call, jobs := job :: rest, failed, answer } =>
        match p.core.exec delivered job with
        | some outcome =>
          { p with
            core := outcome.after
            threads :=
              p.threads.set n
                (Goroutine.ran { call, jobs := job :: rest, failed, answer } outcome rest) }
        | none => p
      | _ => p
    | .stepLoop delivered =>
      match p.loop with
      | job :: rest =>
        match p.core.exec delivered job with
        | some outcome =>
          { p with core := outcome.after, loop := outcome.continues ++ rest }
        | none => p
      | [] => p
    | .receive message =>
      if p.loop = [] ∧ p.readLoopDone = false ∧ p.core.transportClosed = false then
        match decodeFrame message with
        | some frame => p.dispatch frame
        | none => p
      else p
    | .readError =>
      if p.loop = [] ∧ p.readLoopDone = false then
        { p with loop := [.closeWithErr .transport], readLoopDone := true }
      else p

/-! ### Locks -/

/-- The section takes the send mutex. -/
def sendLocks : StreamOp → Bool
  | .write _ | .closeWrite | .teardownSend _ | .onCredit _ => true
  | _ => false

/-- The job waits for a mutex or a `sync.Once` that the goroutine still holds
on behalf of `held`. -/
def Job.WaitsFor (job held : Job) : Prop :=
  match job, held with
  | .closeWithErr _, .closeDone => True
  | .onStream r (.teardown _), .teardownDone other => r = other
  | .onStream r op, .writeFailed other => r = other ∧ sendLocks op = true
  | .onStream r op, .onStream other (.writing _) => r = other ∧ sendLocks op = true
  | _, _ => False

/-- The goroutine is about to take a lock that it holds. -/
def SelfLock : List Job → Prop
  | [] => False
  | job :: rest => ∃ held ∈ rest, job.WaitsFor held

/-- The remaining work of the read loop and of every call. -/
def Process.stacks (p : Process) : List (List Job) := p.loop :: p.threads.map Goroutine.jobs

/-- No goroutine can go on. -/
def Quiescent (p : Process) : Prop :=
  p.core.panicked = true ∨
    ∀ job rest, job :: rest ∈ p.stacks → ∀ delivered, p.core.exec delivered job = none

/-- Both directions of the stream fail, and its signals have ended. -/
def TornDown (st : GoStream) : Prop :=
  st.rerr ≠ none ∧ st.serr ≠ none ∧ st.signalsClosed = true

/-- What a call can still do on an ended session: take what is queued or
buffered, write nothing, and half-close what has failed. -/
def Job.Offline (c : Core) : Job → Prop
  | .accept => c.session.accept ≠ []
  | .read r _ => ∃ st, c.heap r = some st ∧ st.rbuf ≠ []
  | .onStream _ (.write p) => p = []
  | .onStream _ .closeWrite => True
  | _ => False

/-- The session has ended: no stream is registered, every stream there was is
torn down, every call has returned, with an error if a transport write of its
own failed, and whatever is called from now on returns an error. -/
structure Ended (p : Process) : Prop where
  closed : p.core.session.closed = true ∧ p.core.once = .done ∧ p.core.transportClosed = true
  streams : p.core.session.streams = ∅
  torn : ∀ r st, p.core.heap r = some st → TornDown st
  loop : p.loop = []
  returned : ∀ g ∈ p.threads, g.jobs = [] ∧ (g.call.answers = true → g.answer ≠ none)
  errors : ∀ g ∈ p.threads, g.failed = true → g.call.reports = true →
    ∃ err, g.answer = some (.error err)
  refuses : ∀ job delivered outcome, p.core.exec delivered job = some outcome →
    outcome.answer = some .ok → job.Offline p.core

end HelixKit.Stream.Failing
