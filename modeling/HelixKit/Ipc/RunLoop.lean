/-
Purpose: The run loop of the IPC client: its attempts to connect, the waits between them, `Close` at
  any point, and what helixd makes of the connections.
Trusted boundary: none
-/
import HelixKit.Lib.Runs
import Mathlib.Logic.Function.Basic

namespace HelixKit.Ipc.RunLoop

/-- In seconds, as all delays. -/
def reconnectMin : Nat := 1

def reconnectMax : Nat := 15

/-- Where the run loop is.  A connection is known by the number of its dial. -/
inductive Loop where
  | top
  | dialing
  /-- The register request is written. -/
  | registering (nc : Nat)
  | registered (nc : Nat)
  | reading (nc : Nat)
  | disconnected (nc : Nat) (err : Option String)
  /-- The connection is not published any more; it is to be closed. -/
  | closing (nc : Nat) (err : Option String)
  | waiting
  | stopped
deriving Repr, DecidableEq

/-- A connection at helixd: the register request is still to be read, the name of the service maps
to it, or it does no more. -/
inductive Served where
  | unread
  | registered
  | dropped
deriving Repr, DecidableEq

/-- `closed` stands for the channel `stop` too.  Kept beside the client: which connections it holds
open, what they are to helixd, whether each attempt that is over had registered, and the delay that
came after it. -/
structure Client where
  closed : Bool := false
  conn : Option Nat := none
  dialed : Nat := 0
  loop : Loop := .top
  backoff : Nat := reconnectMin
  isOpen : Nat → Bool := fun _ => false
  served : Nat → Served := fun _ => .unread
  attempts : List Bool := []
  delays : List Nat := []

inductive Op where
  | close
  /-- The select at the top of the loop. -/
  | check
  | dial (ok : Bool)
  | register (ok : Bool)
  | publish
  /-- The scanner stops, with an error or without. -/
  | hangUp (scannerErr : Option String)
  | clear
  | closeConn
  /-- The select after an error: the timer fires, or `stop` is closed. -/
  | wait (timer : Bool)
  /-- helixd handles the register request of a connection. -/
  | serve (nc : Nat)
  /-- helixd drops a connection. -/
  | drop (nc : Nat)
deriving Repr, DecidableEq

variable (c : Client)

/-- What `readLoop` returns. -/
def readLoop (scannerErr : Option String) : Option String :=
  some (scannerErr.getD "ipc connection closed")

/-- `connectOnce` has returned. -/
def Client.returned (registered : Bool) (err : Option String) : Client :=
  match err with
  | some _ =>
    { c with
      loop := .waiting
      attempts := c.attempts ++ [registered]
      delays := c.delays ++ [c.backoff] }
  | none =>
    { c with
      loop := .top
      attempts := c.attempts ++ [registered]
      delays := c.delays ++ [0]
      backoff := reconnectMin }

def Client.closeSocket (nc : Nat) : Client :=
  { c with isOpen := Function.update c.isOpen nc false }

def Client.Close : Client :=
  if c.closed then c
  else
    match c.conn with
    | none => { c with closed := true }
    | some nc => { c.closeSocket nc with closed := true }

/-- The delay is doubled, up to the limit. -/
def doubled (backoff : Nat) : Nat :=
  if backoff * 2 > reconnectMax then reconnectMax else backoff * 2

/-- A step that cannot be taken changes nothing. -/
def step (c : Client) : Op → Client
  | .close => c.Close
  | .check =>
    match c.loop with
    | .top => { c with loop := if c.closed then .stopped else .dialing }
    | _ => c
  | .dial ok =>
    match c.loop with
    | .dialing =>
      if ok then
        { c with
          loop := .registering c.dialed
          dialed := c.dialed + 1
          isOpen := Function.update c.isOpen c.dialed true }
      else c.returned false (some "dial")
    | _ => c
  | .register ok =>
    match c.loop with
    | .registering nc =>
      if ok then { c with loop := .registered nc }
      else (c.closeSocket nc).returned false (some "register")
    | _ => c
  | .publish =>
    match c.loop with
    | .registered nc => { c with conn := some nc, loop := .reading nc }
    | _ => c
  | .hangUp scannerErr =>
    match c.loop with
    | .reading nc =>
      { c with loop := .disconnected nc (readLoop scannerErr) }
    | _ => c
  | .clear =>
    match c.loop with
    | .disconnected nc err => { c with conn := none, loop := .closing nc err }
    | _ => c
  | .closeConn =>
    match c.loop with
    | .closing nc err => (c.closeSocket nc).returned true err
    | _ => c
  | .wait timer =>
    match c.loop with
    | .waiting =>
      if timer then { c with loop := .top, backoff := doubled c.backoff }
      else if c.closed then { c with loop := .stopped }
      else c
    | _ => c
  | .serve nc =>
    if nc < c.dialed ∧ c.served nc = .unread then
      { c with served := Function.update c.served nc .registered }
    else c
  | .drop nc => { c with served := Function.update c.served nc .dropped }

def start : Client := {}

/-- Whether a request that this connection would answer, or not, returns without an error. -/
def request (c : Client) (answered : Bool) : Bool :=
  match c.conn with
  | none => false
  | some nc => c.isOpen nc && answered

end HelixKit.Ipc.RunLoop
