/-
Purpose: The requests of the on-device IPC client: callers, the read loop that
  delivers replies, timeouts and disconnections, in every order of their steps.
Trusted boundary: none
-/
import HelixKit.Lib.Runs
import Mathlib.Logic.Function.Basic

namespace HelixKit.Ipc

open HelixKit.Runs

/-! ### The client -/

/-- A line with an id.  An id is the value that `nextID` has counted up to. -/
structure Response where
  id : Nat
  error : Bool
deriving Repr, DecidableEq

/-- What ends a request without a reply. -/
inductive Failure where
  | marshal
  | notConnected
  | write
  | timeout
deriving Repr, DecidableEq

/-- What a request returns: an error, or what its reply says. -/
inductive Outcome where
  | reply (response : Response)
  | failed (failure : Failure)
deriving Repr, DecidableEq

/-- Where the caller of a request is: before its entry is made, before the write, in
the select, on the way to take its entry out, or back. -/
inductive Phase where
  | called
  | inserted
  | waiting
  | leaving (failure : Failure)
  | returned (outcome : Outcome)
deriving Repr, DecidableEq

/-- A request and its channel, which has room for one response. -/
structure Request where
  id : Nat
  phase : Phase
  respCh : Option Response := none
deriving Repr, DecidableEq

/-- Where the run loop is.  `deliverResponse` sends after it has taken the entry out;
the loop over the entries at a disconnection sends first, and holds `mu` all along. -/
inductive Loop where
  | dialing
  | reading
  | delivering (channel : Nat) (response : Response)
  | disconnecting (visited : Option Nat)
deriving Repr, DecidableEq

/-- The requests are numbered; a channel is known by its request. -/
structure Client where
  conn : Bool := false
  pending : Nat → Option Nat := fun _ => none
  requests : Nat → Option Request := fun _ => none
  issued : Nat := 0
  counter : Nat := 0
  loop : Loop := .dialing

/-- Nobody holds `mu`. -/
def Client.muFree (c : Client) : Bool :=
  match c.loop with
  | .disconnecting _ => false
  | _ => true

def Client.put (c : Client) (r : Nat) (request : Request) : Client :=
  { c with requests := Function.update c.requests r (some request) }

def Client.delete (c : Client) (id : Nat) : Client :=
  { c with pending := Function.update c.pending id none }

inductive Op where
  /-- A request is made; its parameters may not be encodable. -/
  | call (encodes : Bool)
  | enter (r : Nat)
  | write (r : Nat) (ok : Bool)
  | receive (r : Nat)
  | timeout (r : Nat)
  | leave (r : Nat)
  /-- An id is taken by a registration that fails, or by another client. -/
  | nextID
  | connect
  | reply (response : Response)
  | send
  | disconnect
  | visit (id : Nat)
  | remove
  | unlock
  /-- The context of a caller of `WaitUntilConnected` ends. -/
  | cancel
deriving Repr, DecidableEq

/-- The request, if its caller is in the phase. -/
def Client.at? (c : Client) (r : Nat) (phase : Phase) : Option Request :=
  (c.requests r).filter (·.phase = phase)

/-- The way out of a request that has failed. -/
def leaveRequest (c : Client) (r : Nat) : Client :=
  match c.requests r with
  | some request =>
    match request.phase with
    | .leaving failure =>
      if c.muFree then
        (c.put r { request with phase := .returned (.failed failure) }).delete request.id
      else c
    | _ => c
  | none => c

/-- A step that cannot be taken changes nothing. -/
def step (c : Client) : Op → Client
  | .call encodes =>
    if encodes then
      { c.put c.issued { id := c.counter + 1, phase := .called } with
        issued := c.issued + 1
        counter := c.counter + 1 }
    else
      { c.put c.issued { id := 0, phase := .returned (.failed .marshal) } with issued := c.issued + 1 }
  | .enter r =>
    match c.at? r .called with
    | none => c
    | some request =>
      if c.muFree then
        if c.conn then
          { c.put r { request with phase := .inserted } with
            pending := Function.update c.pending request.id (some r) }
        else c.put r { request with phase := .returned (.failed .notConnected) }
      else c
  | .write r ok =>
    match c.at? r .inserted with
    | none => c
    | some request =>
      c.put r { request with phase := if ok then .waiting else .leaving .write }
  | .receive r =>
    match c.at? r .waiting with
    | none => c
    | some request =>
      match request.respCh with
      | none => c
      | some response =>
        c.put r { request with phase := .returned (.reply response), respCh := none }
  | .timeout r =>
    match c.at? r .waiting with
    | none => c
    | some request => c.put r { request with phase := .leaving .timeout }
  | .leave r => leaveRequest c r
  | .nextID => { c with counter := c.counter + 1 }
  | .connect =>
    match c.loop with
    | .dialing => { c with conn := true, counter := c.counter + 1, loop := .reading }
    | _ => c
  | .reply response =>
    match c.loop with
    | .reading =>
      match c.pending response.id with
      | none => c
      | some channel => { c.delete response.id with loop := .delivering channel response }
    | _ => c
  | .send =>
    match c.loop with
    | .delivering channel response =>
      match c.requests channel with
      | none => c
      | some request =>
        if request.respCh = none then
          { c.put channel { request with respCh := some response } with loop := .reading }
        else c
    | _ => c
  | .disconnect =>
    match c.loop with
    | .reading => { c with conn := false, loop := .disconnecting none }
    | _ => c
  | .visit id =>
    match c.loop, c.pending id with
    | .disconnecting none, some channel =>
      match c.requests channel with
      | none => c
      | some request =>
        { c.put channel
            { request with respCh := request.respCh.getD { id, error := true } } with
          loop := .disconnecting (some id) }
    | _, _ => c
  | .remove =>
    match c.loop with
    | .disconnecting (some id) => { c.delete id with loop := .disconnecting none }
    | _ => c
  | .unlock =>
    match c.loop with
    | .disconnecting none =>
      if ∀ id ≤ c.counter, c.pending id = none then { c with loop := .dialing } else c
    | _ => c
  | .cancel => c

/-- A step of a caller or of the run loop that needs nobody else: no new call, no
line from the server, no connection made or lost. -/
def Op.own : Op → Bool
  | .enter _ | .write _ _ | .receive _ | .timeout _ | .leave _ => true
  | .send | .visit _ | .remove | .unlock => true
  | .call _ | .nextID | .connect | .reply _ | .disconnect | .cancel => false

/-- The client does something by itself. -/
def Moves (c : Client) (op : Op) : Prop :=
  op.own = true ∧ step c op ≠ c

def AtRest (c : Client) : Prop :=
  ∀ op, ¬ Moves c op

/-- The caller of the request is back, with the outcome. -/
def Client.Returned (c : Client) (r : Nat) (outcome : Outcome) : Prop :=
  ∃ request, c.requests r = some request ∧ request.phase = .returned outcome

end HelixKit.Ipc
