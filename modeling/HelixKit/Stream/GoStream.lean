/-
Purpose: One stream of the Go implementation
  (`linux/device/go/internal/stream/stream.go`): its receive half, its send
  half, and every critical section that a goroutine runs on it.
Trusted boundary: none
-/
import HelixKit.Stream.Frame

namespace HelixKit.Stream

/-- The errors a stream or a session ends with. -/
inductive StreamErr where
  | streamClosed
  | streamReset (reason : Bytes)
  | peerReset
  | sessionClosed
  | transport
deriving DecidableEq, Repr

/-- `Stream`.  The id lives in the pointer (`Ref`), since it never changes.
`smu` says that a `Write` holds the send mutex while it waits for the
transport; every other section on the mutexes ends within its own step. -/
structure GoStream where
  openMeta : Bytes
  rbuf : Bytes := []
  reof : Bool := false
  rerr : Option StreamErr := none
  unacked : Nat := 0
  window : Int
  sdone : Bool := false
  serr : Option StreamErr := none
  smu : Bool := false
  signals : List Bytes := []
  signalsClosed : Bool := false
  closeOnce : Bool := false
deriving DecidableEq, Repr

/-- Capacity of the `signals` channel. -/
def signalsCapacity : Nat := 16

def newStream (initialWindow : Nat) (openMeta : Bytes) : GoStream :=
  { openMeta, window := initialWindow }

/-- What `Read` gives its caller. -/
inductive ReadResult where
  | bytes (data : Bytes)
  | eof
  | failed (err : StreamErr)
deriving DecidableEq, Repr

/-- The bytes a read has copied into its caller's buffer. -/
def ReadResult.data : ReadResult → Bytes
  | .bytes data => data
  | _ => []

/-- The outcome of `Read`'s locked section; `grant` is the credit the caller
sends after unlocking, zero for none. -/
structure ReadStep where
  stream : GoStream
  result : ReadResult
  grant : Nat := 0
deriving DecidableEq, Repr

/-- `Read` into a buffer of `n` bytes.  `none` means that the caller waits on
`rcond`. -/
def GoStream.read (creditThreshold n : Nat) (st : GoStream) : Option ReadStep :=
  if st.rbuf = [] then
    match st.rerr with
    | some err => some { stream := st, result := .failed err }
    | none => if st.reof then some { stream := st, result := .eof } else none
  else
    let data := st.rbuf.take n
    let unacked := st.unacked + data.length
    if creditThreshold ≤ unacked then
      some
        { stream := { st with rbuf := st.rbuf.drop n, unacked := 0 }
          result := .bytes data
          grant := unacked }
    else
      some
        { stream := { st with rbuf := st.rbuf.drop n, unacked := unacked }
          result := .bytes data }

/-- What `Write` does next with `p` left to send, holding the send mutex. -/
inductive WriteNext where
  | returns
  | waits
  | sends
deriving DecidableEq, Repr

/-- The head of the loop in `Write`: wait while there is no window and no
reason to give up, then give up or send. -/
def GoStream.writeNext (st : GoStream) (p : Bytes) : WriteNext :=
  if p = [] then .returns
  else if st.window = 0 ∧ st.serr = none ∧ st.sdone = false then .waits
  else if st.serr ≠ none ∨ st.sdone = true then .returns
  else .sends

/-- The length of the next DATA payload: `p`, cut to the window and to
`maxChunk`. -/
def GoStream.chunk (maxChunk : Nat) (st : GoStream) (p : Bytes) : Nat :=
  (min (min (p.length : Int) st.window) maxChunk).toNat

/-- What a goroutine still has to do on a stream. -/
inductive StreamOp where
  | write (p : Bytes)
  | writing (p : Bytes)
  | closeWrite
  | teardown (err : StreamErr)
  | teardownRecv (err : StreamErr)
  | teardownSend (err : StreamErr)
  | closeSignals
  | onData (data : Bytes)
  | onEnd
  | onCredit (n : UInt32)
  | onSignal (payload : Bytes)
deriving DecidableEq, Repr

/-- The effect of one critical section: the new stream, the rest of the
goroutine's work on it, the DATA payload handed to the transport inside the
section, and whether CloseWrite's END is to be written after it. -/
structure StreamEffect where
  stream : GoStream
  continues : List StreamOp := []
  data : Option Bytes := none
  sendEnd : Bool := false
  panics : Bool := false
deriving DecidableEq, Repr

/-- One critical section.  `none` means that the goroutine waits: for the send
mutex, or on `scond`. -/
def GoStream.exec (maxChunk : Nat) (transportClosed : Bool) (st : GoStream) :
    StreamOp → Option StreamEffect
  | .write p =>
    if st.smu then none
    else
      match st.writeNext p with
      | .returns => some { stream := st }
      | .waits => none
      | .sends =>
        some { stream := { st with smu := true }, continues := [.writing p] }
  | .writing p =>
    if transportClosed then
      some { stream := { st with serr := some .transport, smu := false } }
    else
      let chunk := st.chunk maxChunk p
      let after := { st with window := st.window - chunk }
      let rest := p.drop chunk
      match after.writeNext rest with
      | .returns =>
        some { stream := { after with smu := false }, data := some (p.take chunk) }
      | .waits =>
        some
          { stream := { after with smu := false }
            continues := [.write rest]
            data := some (p.take chunk) }
      | .sends =>
        some
          { stream := after
            continues := [.writing rest]
            data := some (p.take chunk) }
  | .closeWrite =>
    if st.smu then none
    else if st.sdone = true ∨ st.serr ≠ none then some { stream := st }
    else some { stream := { st with sdone := true }, sendEnd := true }
  | .teardown err =>
    if st.closeOnce then some { stream := st }
    else
      some
        { stream := { st with closeOnce := true }
          continues := [.teardownRecv err, .teardownSend err, .closeSignals] }
  | .teardownRecv err =>
    some { stream := { st with rerr := st.rerr <|> some err } }
  | .teardownSend err =>
    if st.smu then none
    else some { stream := { st with serr := st.serr <|> some err } }
  | .closeSignals => some { stream := { st with signalsClosed := true } }
  | .onData data =>
    if st.rerr = none ∧ st.reof = false then
      some { stream := { st with rbuf := st.rbuf ++ data } }
    else some { stream := st }
  | .onEnd => some { stream := { st with reof := true } }
  | .onCredit n =>
    if st.smu then none
    else some { stream := { st with window := st.window + n.toNat } }
  | .onSignal payload =>
    if st.signalsClosed then some { stream := st, panics := true }
    else if st.signals.length < signalsCapacity then
      some { stream := { st with signals := st.signals ++ [payload] } }
    else some { stream := st }

end HelixKit.Stream
