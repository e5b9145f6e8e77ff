/-
Purpose: The requests of a service client and the registry that pairs them with their responses, in
  every order of sends, responses, timeouts and lost connections.
Trusted boundary: what a schema parses and how a send ends are the events of a run
Main exports: client_requests_settle
-/
import HelixKit.Lib.Runs
import Mathlib.Data.List.Induction
import Mathlib.Data.List.Nodup

namespace HelixKit.Protocol.Requests

open HelixKit.Runs

/-! ### The registry -/

abbrev RequestId : Type := String

/-- What a promise is rejected with. -/
inductive Failure where
  | unknownMethod
  | invalidInput
  | duplicate (requestId : RequestId)
  | timeout (requestId : RequestId)
  | connection
  | send
  | invalidOutput
deriving DecidableEq, Repr

section Model

variable {Message Value : Type}

/-- `HelixRequestRegistry`.  A promise is named by the number of the call that created it; `pending`
is the map, in which an entry stands for the functions that settle its promise and for its timeout,
and `timers` are the timeouts that have not been cleared. -/
structure Registry (Message : Type) where
  pending : List (RequestId × Nat) := []
  timers : List (RequestId × Nat) := []
  promises : Nat → Option (Except Failure Message) := fun _ => none

namespace Registry

variable (registry : Registry Message)

/-- Only the first call of a promise's functions counts. -/
def settle (promise : Nat) (result : Except Failure Message) : Registry Message :=
  { registry with
    promises := fun other =>
      if other = promise then (registry.promises promise).or (some result)
      else registry.promises other }

def has (requestId : RequestId) : Bool := (registry.pending.lookup requestId).isSome

def create (requestId : RequestId) (promise : Nat) : Registry Message :=
  if registry.has requestId then registry.settle promise (.error (.duplicate requestId))
  else
    { registry with
      pending := registry.pending ++ [(requestId, promise)]
      timers := registry.timers ++ [(requestId, promise)] }

/-- `#pending.delete`. -/
def delete (requestId : RequestId) : Registry Message :=
  { registry with pending := registry.pending.filter fun entry => entry.1 ≠ requestId }

def clearTimeout (promise : Nat) : Registry Message :=
  { registry with timers := registry.timers.filter fun timer => timer.2 ≠ promise }

/-- The callback of a timeout; one that has run is over. -/
def expire (requestId : RequestId) (promise : Nat) : Registry Message :=
  ((registry.clearTimeout promise).delete requestId).settle promise (.error (.timeout requestId))

def rejectAll (error : Failure) : Registry Message :=
  registry.pending.foldl
    (fun registry entry =>
      ((registry.clearTimeout entry.2).settle entry.2 (.error error)).delete entry.1)
    registry

def resolve (requestId : RequestId) (message : Message) : Registry Message :=
  match registry.pending.lookup requestId with
  | none => registry
  | some promise =>
    ((registry.clearTimeout promise).delete requestId).settle promise (.ok message)

end Registry

/-! ### The client -/

/-- How far a call of `request` has come. -/
inductive Stage (Value : Type) where
  | sending
  | awaiting
  | settled (result : Except Failure Value)

def Stage.isSettled : Stage Value → Bool
  | .settled _ => true
  | _ => false

/-- A client, and the calls whose promises were settled, one after another. -/
structure Client (Message Value : Type) where
  registry : Registry Message := {}
  calls : List (Stage Value) := []
  settlements : List Nat := []

namespace Client

variable (client : Client Message Value)

/-- The promise of a call is resolved or rejected. -/
def settle (call : Nat) (result : Except Failure Value) : Client Message Value :=
  { client with
    calls := client.calls.set call (.settled result)
    settlements := client.settlements ++ [call] }

/-- The first part of `request`: `prepared` is how the method was found and its input parsed, and
`throws` whether `send` throws. -/
def request (prepared : Except Failure Unit) (requestId : RequestId) (throws : Bool) :
    Client Message Value :=
  let call := client.calls.length
  let started : Client Message Value := { client with calls := client.calls ++ [.sending] }
  match prepared with
  | .error error => started.settle call (.error error)
  | .ok () =>
    let created := { started with registry := client.registry.create requestId call }
    if throws then created.settle call (.error .send) else created

/-- What follows `await this.#send(…)`. -/
def sent (call : Nat) (failed : Bool) : Client Message Value :=
  match client.calls[call]? with
  | some .sending =>
    if failed then client.settle call (.error .send)
    else { client with calls := client.calls.set call .awaiting }
  | _ => client

/-- What follows `await response`. -/
def resume (output : Message → Option Value) (call : Nat) : Client Message Value :=
  match client.calls[call]?, client.registry.promises call with
  | some .awaiting, some (.error error) => client.settle call (.error error)
  | some .awaiting, some (.ok message) =>
    match output message with
    | some value => client.settle call (.ok value)
    | none => client.settle call (.error .invalidOutput)
  | _, _ => client

def receive (requestId : Option RequestId) (message : Message) : Client Message Value :=
  match requestId with
  | none => client
  | some requestId => { client with registry := client.registry.resolve requestId message }

/-- A timer runs out. -/
def timeout (timer : Nat) : Client Message Value :=
  match client.registry.timers[timer]? with
  | none => client
  | some (requestId, promise) =>
    { client with registry := client.registry.expire requestId promise }

end Client

inductive Event (Message : Type) where
  | request (prepared : Except Failure Unit) (requestId : RequestId) (throws : Bool)
  | sent (call : Nat) (failed : Bool)
  | receive (requestId : Option RequestId) (message : Message)
  | timeout (timer : Nat)
  | rejectAll (error : Failure)
  | resume (call : Nat)

def step (output : Message → Option Value) (client : Client Message Value) :
    Event Message → Client Message Value
  | .request prepared requestId throws => client.request prepared requestId throws
  | .sent call failed => client.sent call failed
  | .receive requestId message => client.receive requestId message
  | .timeout timer => client.timeout timer
  | .rejectAll error => { client with registry := client.registry.rejectAll error }
  | .resume call => client.resume output call

/-- A send fails only when the registry has no entry of its request: after the response, the timeout
or the loss of the connection, or for an id that another request holds. -/
def Careful (client : Client Message Value) : Event Message → Prop
  | .request (.ok ()) requestId true => client.registry.has requestId = true
  | .sent call true =>
    client.calls[call]? = some .sending → ∀ entry ∈ client.registry.pending, entry.2 ≠ call
  | _ => True

/-! ### What a client keeps -/

/-- Something is still to come for a call: the end of its send, its response or its timeout, or the
rest of the call. -/
def Client.Goes (client : Client Message Value) (call : Nat) : Prop :=
  client.calls[call]? = some .sending ∨
    client.calls[call]? = some .awaiting ∧
      ((client.registry.promises call).isSome = true ∨
        ∃ requestId, (requestId, call) ∈ client.registry.pending ∧
          (requestId, call) ∈ client.registry.timers)

/-- Each call settles once at most, and goes on until it does; what has settled has no entry and no
timer. -/
structure Settles (client : Client Message Value) : Prop where
  once : ∀ call, client.settlements.count call ≤ 1
  goes : ∀ call < client.calls.length, client.settlements.count call = 1 ∨ client.Goes call
  released : ∀ call ∈ client.settlements,
    (∀ entry ∈ client.registry.pending, entry.2 ≠ call) ∧
      ∀ timer ∈ client.registry.timers, timer.2 ≠ call

end Model

/-! ### The registry's operations -/

section Operations

variable {Message : Type} {registry after last : Registry Message} {calls : Nat}

/-- An entry is taken out and its promise is settled. -/
def Registry.finish (registry : Registry Message) (entry : RequestId × Nat)
    (result : Except Failure Message) : Registry Message :=
  ((registry.clearTimeout entry.2).delete entry.1).settle entry.2 result

/-- The map has one entry for each request, with its timeout, whose promise is pending. -/
structure Paired (registry : Registry Message) (calls : Nat) : Prop where
  timers : registry.timers = registry.pending
  keys : (registry.pending.map Prod.fst).Nodup
  owners : (registry.pending.map Prod.snd).Nodup
  made : ∀ entry ∈ registry.pending, entry.2 < calls
  unsettled : ∀ entry ∈ registry.pending, registry.promises entry.2 = none
  fresh : ∀ promise, calls ≤ promise → registry.promises promise = none

/-- What an operation does to the requests before the call `calls`: a promise that loses its entry
is settled. -/
structure Ends (calls : Nat) (registry after : Registry Message) : Prop where
  pending : ∀ entry ∈ after.pending, entry ∈ registry.pending ∨ entry.2 = calls
  promises : ∀ promise, (registry.promises promise).isSome = true →
    (after.promises promise).isSome = true
  waits : ∀ requestId promise, (requestId, promise) ∈ registry.pending →
    (requestId, promise) ∈ after.pending ∨ (after.promises promise).isSome = true

theorem Ends.refl (calls : Nat) (registry : Registry Message) : Ends calls registry registry where
  pending _ present := Or.inl present
  promises _ settled := settled
  waits _ _ present := Or.inl present

theorem Ends.trans (first : Ends calls registry after) (second : Ends calls after last) :
    Ends calls registry last where
  pending entry present := (second.pending entry present).elim (first.pending entry) Or.inr
  promises promise settled := second.promises promise (first.promises promise settled)
  waits requestId promise present := by
    rcases first.waits requestId promise present with still | settled
    · exact second.waits requestId promise still
    · exact Or.inr (second.promises promise settled)

/-- Two entries with one request id are the same. -/
theorem Paired.entry_eq (paired : Paired registry calls) {entry other : RequestId × Nat}
    (present : entry ∈ registry.pending) (among : other ∈ registry.pending)
    (same : entry.1 = other.1) : entry = other :=
  List.inj_on_of_nodup_map paired.keys present among same

theorem Paired.owner_eq (paired : Paired registry calls) {entry other : RequestId × Nat}
    (present : entry ∈ registry.pending) (among : other ∈ registry.pending)
    (same : entry.2 = other.2) : entry = other :=
  List.inj_on_of_nodup_map paired.owners present among same

theorem Paired.finish (paired : Paired registry calls) {entry : RequestId × Nat}
    (present : entry ∈ registry.pending) (result : Except Failure Message) :
    Paired (registry.finish entry result) calls ∧
      Ends calls registry (registry.finish entry result) := by
  have pending : (registry.finish entry result).pending =
      registry.pending.filter fun other => other.1 ≠ entry.1 := rfl
  -- deleting by the request id and clearing by the promise take out the same entry
  have same : ∀ other ∈ registry.pending, (other.1 = entry.1 ↔ other.2 = entry.2) := by
    intro other among
    constructor
    · intro equal
      rw [paired.entry_eq among present equal]
    · intro equal
      rw [paired.owner_eq among present equal]
  have sublist := List.filter_sublist (p := fun other => decide (other.1 ≠ entry.1))
    (l := registry.pending)
  constructor
  · constructor
    · change registry.timers.filter _ = registry.pending.filter _
      rw [paired.timers]
      refine List.filter_congr fun other among => ?_
      simp [same other among]
    · exact (paired.keys.sublist (pending ▸ sublist.map Prod.fst))
    · exact (paired.owners.sublist (pending ▸ sublist.map Prod.snd))
    · intro other among
      exact paired.made other (sublist.subset (pending ▸ among))
    · intro other among
      rw [pending] at among
      obtain ⟨among, different⟩ := List.mem_filter.mp among
      have apart : other.2 ≠ entry.2 := by
        simpa [same other among] using different
      simpa [Registry.finish, Registry.settle, apart, Registry.delete, Registry.clearTimeout]
        using paired.unsettled other among
    · intro promise later
      have other : promise ≠ entry.2 := by
        have := paired.made entry present
        omega
      simpa [Registry.finish, Registry.settle, other, Registry.delete, Registry.clearTimeout]
        using paired.fresh promise later
  · constructor
    · exact fun other among => Or.inl (sublist.subset (pending ▸ among))
    · intro promise settled
      change ((if promise = entry.2 then _ else _ : Option _)).isSome = true
      split
      · simp
      · exact settled
    · intro requestId promise among
      by_cases own : requestId = entry.1
      · have owner := (same _ among).mp own
        refine Or.inr ?_
        change ((if promise = entry.2 then _ else _ : Option _)).isSome = true
        rw [if_pos owner]
        simp
      · exact Or.inl (by simpa [pending, own] using among)

theorem Paired.resolve (paired : Paired registry calls) (requestId : RequestId)
    (message : Message) :
    Paired (registry.resolve requestId message) calls ∧
      Ends calls registry (registry.resolve requestId message) := by
  unfold Registry.resolve
  split
  · exact ⟨paired, .refl _ _⟩
  next promise found =>
    have present : (requestId, promise) ∈ registry.pending := by
      obtain ⟨before, later, split_, -⟩ := List.lookup_eq_some_iff.mp found
      simp [split_]
    exact paired.finish present (.ok message)

/-- Entries with different request ids are taken out one after another. -/
theorem Paired.finishAll (error : Failure) {entries : List (RequestId × Nat)}
    (paired : Paired registry calls) (present : ∀ entry ∈ entries, entry ∈ registry.pending)
    (apart : (entries.map Prod.fst).Nodup) :
    let after := entries.foldl (fun registry entry => registry.finish entry (.error error)) registry
    Paired after calls ∧ Ends calls registry after := by
  induction entries generalizing registry with
  | nil => exact ⟨paired, .refl _ _⟩
  | cons entry rest ih =>
    obtain ⟨still, ends⟩ := paired.finish (present entry (by simp)) (.error error)
    simp only [List.map_cons, List.nodup_cons] at apart
    have later : ∀ other ∈ rest, other ∈ (registry.finish entry (.error error)).pending := by
      intro other among
      have different : other.1 ≠ entry.1 := fun same =>
        apart.1 (same ▸ List.mem_map_of_mem among)
      exact List.mem_filter.mpr
        ⟨present other (List.mem_cons_of_mem _ among), by simpa using different⟩
    obtain ⟨paired, more⟩ := ih still later apart.2
    exact ⟨paired, ends.trans more⟩

theorem Paired.rejectAll (paired : Paired registry calls) (error : Failure) :
    Paired (registry.rejectAll error) calls ∧ Ends calls registry (registry.rejectAll error) :=
  paired.finishAll error (fun _ present => present) paired.keys

theorem Paired.expire (paired : Paired registry calls) {timer : RequestId × Nat}
    (running : timer ∈ registry.timers) :
    Paired (registry.expire timer.1 timer.2) calls ∧
      Ends calls registry (registry.expire timer.1 timer.2) :=
  paired.finish (paired.timers ▸ running) (.error (.timeout timer.1))

/-- A new request gets an entry, unless its id has one: then its promise is rejected. -/
theorem Paired.create (paired : Paired registry calls) (requestId : RequestId) :
    Paired (registry.create requestId calls) (calls + 1) ∧
      Ends calls registry (registry.create requestId calls) ∧
        ((requestId, calls) ∈ (registry.create requestId calls).pending ∨
          ((registry.create requestId calls).promises calls).isSome = true) := by
  have made := paired.made
  unfold Registry.create
  split
  · refine ⟨⟨paired.timers, paired.keys, paired.owners, ?_, ?_, ?_⟩, ⟨?_, ?_, ?_⟩, ?_⟩
    · exact fun entry present => Nat.lt_succ_of_lt (made entry present)
    · intro entry present
      have other : entry.2 ≠ calls := Nat.ne_of_lt (made entry present)
      simpa [Registry.settle, other] using paired.unsettled entry present
    · intro promise later
      have other : promise ≠ calls := by omega
      simpa [Registry.settle, other] using paired.fresh promise (by omega)
    · exact fun _ present => Or.inl present
    · intro promise settled
      have other : promise ≠ calls := by
        rintro rfl
        simp [paired.fresh promise (Nat.le_refl _)] at settled
      simpa [Registry.settle, other] using settled
    · exact fun _ _ present => Or.inl present
    · exact Or.inr (by simp [Registry.settle])
  next new =>
    have unused : ∀ entry ∈ registry.pending, entry.1 ≠ requestId := by
      rintro ⟨key, promise⟩ present rfl
      have absent : ∀ other, (key, other) ∉ registry.pending := by
        simpa [Registry.has] using new
      exact absent promise present
    refine ⟨⟨?_, ?_, ?_, ?_, ?_, ?_⟩, ⟨?_, fun _ => id, ?_⟩, ?_⟩
    · simp [paired.timers]
    · rw [List.map_append]
      refine List.nodup_append.mpr ⟨paired.keys, by simp, ?_⟩
      rintro key present other one rfl
      obtain ⟨entry, among, rfl⟩ := List.mem_map.mp present
      exact unused entry among (by simpa using one)
    · rw [List.map_append]
      refine List.nodup_append.mpr ⟨paired.owners, by simp, ?_⟩
      rintro owner present other one rfl
      obtain ⟨entry, among, rfl⟩ := List.mem_map.mp present
      have := made entry among
      simp only [List.map_cons, List.map_nil, List.mem_singleton] at one
      omega
    · intro entry present
      rcases List.mem_append.mp present with old | one
      · exact Nat.lt_succ_of_lt (made entry old)
      · simp [List.mem_singleton.mp one]
    · intro entry present
      rcases List.mem_append.mp present with old | one
      · exact paired.unsettled entry old
      · simpa [List.mem_singleton.mp one] using paired.fresh calls (Nat.le_refl _)
    · exact fun promise later => paired.fresh promise (by omega)
    · intro entry present
      rcases List.mem_append.mp present with old | one
      · exact Or.inl old
      · exact Or.inr (by simp [List.mem_singleton.mp one])
    · exact fun _ _ present => Or.inl (List.mem_append_left _ present)
    · exact Or.inl (by simp)

/-- A new request has no entry exactly when another one holds its id. -/
theorem Paired.free_create (paired : Paired registry calls) {requestId : RequestId} :
    (∀ entry ∈ (registry.create requestId calls).pending, entry.2 ≠ calls) ↔
      registry.has requestId = true := by
  constructor
  · intro free
    by_contra new
    refine free (requestId, calls) ?_ rfl
    simp [Registry.create, new]
  · intro held entry present
    have old : entry ∈ registry.pending := by
      simpa [Registry.create, held, Registry.settle] using present
    exact Nat.ne_of_lt (paired.made entry old)

end Operations

/-! ### Runs of a client -/

section Invariant

variable {Message Value : Type} {client : Client Message Value} {output : Message → Option Value}

/-- A call has settled as often as its stage says, and one that has not waits for its promise. -/
structure Holds (client : Client Message Value) : Prop where
  paired : Paired client.registry client.calls.length
  counted : ∀ call, client.settlements.count call =
    if (client.calls[call]?.any Stage.isSettled) then 1 else 0
  waits : ∀ (call : Nat) stage, client.calls[call]? = some stage → stage.isSettled = false →
    (client.registry.promises call).isSome = true ∨
      ∃ requestId, (requestId, call) ∈ client.registry.pending

/-- What has settled has no entry. -/
def Released (client : Client Message Value) : Prop :=
  ∀ call ∈ client.settlements, ∀ entry ∈ client.registry.pending, entry.2 ≠ call

theorem Holds.settled_lt (holds : Holds client) {call : Nat} (settled : call ∈ client.settlements) :
    call < client.calls.length := by
  have counted := holds.counted call
  have some_ := List.count_pos_iff.mpr settled
  by_contra outside
  rw [List.getElem?_eq_none (by omega)] at counted
  simp at counted
  omega

theorem Holds.settle (holds : Holds client) {call : Nat} {stage : Stage Value}
    (here : client.calls[call]? = some stage) (running : stage.isSettled = false)
    (result : Except Failure Value) : Holds (client.settle call result) := by
  have inside : call < client.calls.length := (List.getElem?_eq_some_iff.mp here).1
  constructor
  · simpa [Client.settle] using holds.paired
  · intro other
    have before := holds.counted other
    by_cases same : other = call
    · subst same
      rw [here] at before
      simp only [Option.any_some, running, Bool.false_eq_true, if_false] at before
      simp [Client.settle, List.count_append, before, inside, Stage.isSettled]
    · simpa [Client.settle, List.count_append, List.count_singleton, Ne.symm same,
        List.getElem?_set_ne (Ne.symm same)] using before
  · intro other found isStage unsettled
    by_cases same : other = call
    · subst same
      simp only [Client.settle, List.getElem?_set_self inside, Option.some.injEq] at isStage
      simp [← isStage, Stage.isSettled] at unsettled
    · exact holds.waits other found
        (by simpa [Client.settle, List.getElem?_set_ne (Ne.symm same)] using isStage) unsettled

/-- A send that ends well leaves its call waiting for the response. -/
theorem Holds.await (holds : Holds client) {call : Nat}
    (here : client.calls[call]? = some .sending) :
    Holds { client with calls := client.calls.set call .awaiting } where
  paired := by simpa using holds.paired
  counted other := by
    have before := holds.counted other
    by_cases same : other = call
    · subst same
      have inside := (List.getElem?_eq_some_iff.mp here).1
      simpa [here, List.getElem?_set_self inside, Stage.isSettled] using before
    · simpa [List.getElem?_set_ne (Ne.symm same)] using before
  waits other stage found running := by
    by_cases same : other = call
    · exact holds.waits other .sending (same ▸ here) rfl
    · exact holds.waits other stage
        (by simpa [List.getElem?_set_ne (Ne.symm same)] using found) running

theorem Holds.registry (holds : Holds client) {registry : Registry Message}
    (paired : Paired registry client.calls.length)
    (ends : Ends client.calls.length client.registry registry) :
    Holds { client with registry } where
  paired := paired
  counted := holds.counted
  waits call stage here running := by
    rcases holds.waits call stage here running with settled | ⟨requestId, present⟩
    · exact Or.inl (ends.promises call settled)
    · exact (ends.waits requestId call present).symm.imp_right fun still => ⟨requestId, still⟩

/-- A call that has just begun to send. -/
theorem Holds.start (holds : Holds client) {registry : Registry Message}
    (paired : Paired registry (client.calls.length + 1))
    (ends : Ends client.calls.length client.registry registry)
    (waits : (registry.promises client.calls.length).isSome = true ∨
      ∃ requestId, (requestId, client.calls.length) ∈ registry.pending) :
    Holds { client with registry, calls := client.calls ++ [.sending] } where
  paired := by simpa using paired
  counted call := by
    have before := holds.counted call
    rcases Nat.lt_trichotomy call client.calls.length with earlier | rfl | later
    · simpa [List.getElem?_append_left earlier] using before
    · simpa [Stage.isSettled] using before
    · rw [List.getElem?_eq_none (by omega)] at before
      rw [List.getElem?_eq_none (by simp; omega)]
      exact before
  waits call stage here running := by
    rcases Nat.lt_trichotomy call client.calls.length with earlier | rfl | later
    · rw [List.getElem?_append_left earlier] at here
      rcases holds.waits call stage here running with settled | ⟨requestId, present⟩
      · exact Or.inl (ends.promises call settled)
      · exact (ends.waits requestId call present).symm.imp_right fun still => ⟨requestId, still⟩
    · exact waits
    · rw [List.getElem?_eq_none (by simp; omega)] at here
      cases here

/-- A call that ends before there is anything to send. -/
theorem Holds.refuse (holds : Holds client) (result : Except Failure Value) :
    Holds ({ client with calls := client.calls ++ [Stage.sending] }.settle client.calls.length
      result) where
  paired := by
    have grown : Paired client.registry (client.calls.length + 1) :=
      { holds.paired with
        made := fun entry present => Nat.lt_succ_of_lt (holds.paired.made entry present)
        fresh := fun promise later => holds.paired.fresh promise (by omega) }
    simpa [Client.settle] using grown
  counted call := by
    have before := holds.counted call
    rcases Nat.lt_trichotomy call client.calls.length with earlier | rfl | later
    · simpa [Client.settle, List.count_append, List.getElem?_append_left earlier,
        List.count_singleton, Nat.ne_of_gt earlier] using before
    · rw [List.getElem?_eq_none (Nat.le_refl _)] at before
      simpa [Client.settle, List.count_append, Stage.isSettled] using before
    · rw [List.getElem?_eq_none (by omega)] at before
      simpa [Client.settle, List.count_append, List.count_singleton, Nat.ne_of_lt later,
        List.getElem?_eq_none (show (client.calls ++ [Stage.settled result]).length ≤ call by
          simp; omega)] using before
  waits call stage here running := by
    rcases Nat.lt_trichotomy call client.calls.length with earlier | rfl | later
    · refine holds.waits call stage ?_ running
      simpa [Client.settle, List.getElem?_append_left earlier] using here
    · have shape : stage = .settled result := by
        simpa [Client.settle, eq_comm] using here
      simp [shape, Stage.isSettled] at running
    · rw [Client.settle, List.getElem?_eq_none (by simp; omega)] at here
      cases here

theorem holds_step (holds : Holds client) (event : Event Message) :
    Holds (step output client event) := by
  cases event with
  | request prepared requestId throws =>
    simp only [step, Client.request]
    cases prepared with
    | error error => exact holds.refuse _
    | ok _ =>
      obtain ⟨paired, ends, waits⟩ := holds.paired.create requestId
      have started := holds.start paired ends
        (waits.symm.imp_right fun present => ⟨requestId, present⟩)
      cases throws with
      | false => exact started
      | true =>
        have sending : (client.calls ++ [Stage.sending])[client.calls.length]? =
            some (Stage.sending : Stage Value) := by simp
        exact started.settle sending rfl _
  | sent call failed =>
    simp only [step, Client.sent]
    split
    next here =>
      cases failed with
      | true => exact holds.settle here rfl _
      | false => exact holds.await here
    · exact holds
  | receive requestId message =>
    cases requestId with
    | none => exact holds
    | some requestId =>
      obtain ⟨paired, ends⟩ := holds.paired.resolve requestId message
      exact holds.registry paired ends
  | timeout timer =>
    simp only [step, Client.timeout]
    split
    · exact holds
    next running =>
      obtain ⟨paired, ends⟩ := holds.paired.expire (List.mem_of_getElem? running)
      exact holds.registry paired ends
  | rejectAll error =>
    obtain ⟨paired, ends⟩ := holds.paired.rejectAll error
    exact holds.registry paired ends
  | resume call =>
    simp only [step, Client.resume]
    split
    next here _ => exact holds.settle here rfl _
    next here _ => split <;> exact holds.settle here rfl _
    · exact holds

theorem released_settle {call : Nat} (result : Except Failure Value) (released : Released client) :
    Released (client.settle call result) ↔ ∀ entry ∈ client.registry.pending, entry.2 ≠ call := by
  constructor
  · intro after
    exact after call (by simp [Client.settle])
  · intro free other settled
    rcases List.mem_append.mp settled with before | one
    · exact released other before
    · exact List.mem_singleton.mp one ▸ free

/-- An entry that is new belongs to a call that has not settled. -/
theorem Released.ends (released : Released client) (holds : Holds client)
    {registry : Registry Message} (ends : Ends client.calls.length client.registry registry)
    (calls : List (Stage Value)) : Released { client with registry, calls } := by
  intro call settled entry present
  rcases ends.pending entry present with old | new
  · exact released call settled entry old
  · rw [new]
    exact (Nat.ne_of_lt (holds.settled_lt settled)).symm

/-- A promise that is settled has no entry left. -/
theorem Holds.free_of_settled (holds : Holds client) {call : Nat}
    {result : Except Failure Message} (done : client.registry.promises call = some result) :
    ∀ entry ∈ client.registry.pending, entry.2 ≠ call := by
  intro entry present same
  have unsettled := holds.paired.unsettled entry present
  rw [same, done] at unsettled
  cases unsettled

theorem released_step (holds : Holds client) (released : Released client)
    (event : Event Message) :
    Released (step output client event) ↔ Careful client event := by
  cases event with
  | request prepared requestId throws =>
    simp only [step, Client.request]
    cases prepared with
    | error error =>
      refine iff_of_true ((released_settle _ ?_).mpr ?_) trivial
      · exact released
      · exact fun entry present => Nat.ne_of_lt (holds.paired.made entry present)
    | ok _ =>
      obtain ⟨-, ends, -⟩ := holds.paired.create requestId
      have started := released.ends holds ends (client.calls ++ [Stage.sending])
      cases throws with
      | false => exact iff_of_true started trivial
      | true =>
        exact (released_settle _ started).trans holds.paired.free_create
  | sent call failed =>
    simp only [step, Client.sent]
    split
    next here =>
      cases failed with
      | true => simp [Careful, released_settle _ released, here]
      | false => exact iff_of_true released trivial
    next away =>
      refine iff_of_true released ?_
      cases failed with
      | true => exact fun here => absurd here away
      | false => trivial
  | receive requestId message =>
    refine iff_of_true ?_ trivial
    cases requestId with
    | none => exact released
    | some requestId =>
      exact released.ends holds (holds.paired.resolve requestId message).2 client.calls
  | timeout timer =>
    refine iff_of_true ?_ trivial
    simp only [step, Client.timeout]
    split
    · exact released
    next running =>
      have ended := (holds.paired.expire (List.mem_of_getElem? running)).2
      exact released.ends holds ended client.calls
  | rejectAll error =>
    refine iff_of_true ?_ trivial
    exact released.ends holds (holds.paired.rejectAll error).2 client.calls
  | resume call =>
    refine iff_of_true ?_ trivial
    simp only [step, Client.resume]
    split
    next done => exact (released_settle _ released).mpr (holds.free_of_settled done)
    next done =>
      split <;> exact (released_settle _ released).mpr (holds.free_of_settled done)
    · exact released

theorem settles_iff (holds : Holds client) : Settles client ↔ Released client := by
  constructor
  · exact fun settles call settled => (settles.released call settled).1
  · intro released
    constructor
    · intro call
      rw [holds.counted]
      split <;> omega
    · intro call inside
      have counted := holds.counted call
      rw [List.getElem?_eq_getElem inside, Option.any_some] at counted
      cases stage : client.calls[call] with
      | settled result => exact Or.inl (by rw [counted, stage]; rfl)
      | sending => exact Or.inr (Or.inl (by rw [List.getElem?_eq_getElem inside, stage]))
      | awaiting =>
        have here : client.calls[call]? = some .awaiting := by
          rw [List.getElem?_eq_getElem inside, stage]
        refine Or.inr (Or.inr ⟨here, ?_⟩)
        rcases holds.waits call .awaiting here rfl with settled | ⟨requestId, present⟩
        · exact Or.inl settled
        · exact Or.inr ⟨requestId, present, holds.paired.timers ▸ present⟩
    · intro call settled
      exact ⟨released call settled, holds.paired.timers ▸ released call settled⟩

theorem holds_start : Holds ({} : Client Message Value) where
  paired := ⟨rfl, List.nodup_nil, List.nodup_nil, by simp, by simp, fun _ _ => rfl⟩
  counted call := by simp
  waits call stage here := by simp at here

end Invariant

/-! ### Every run of a client -/

/-- The requests of a run settle, and leave nothing behind, exactly when no send fails while its
request is pending. -/
theorem client_requests_settle {Message Value : Type} (output : Message → Option Value)
    (events : List (Event Message)) :
    (∀ before, before <+: events → Settles (run (step output) ({} : Client Message Value) before)) ↔
      Along (step output) Careful ({} : Client Message Value) events := by
  have holds : ∀ events, Holds (run (step output) ({} : Client Message Value) events) :=
    fun _ => run_invariant Holds (fun _ event held => holds_step held event) holds_start
  simp only [settles_iff (holds _)]
  -- the last event of a run keeps what has settled released exactly when it is careful
  induction events using List.reverseRecOn with
  | nil =>
    refine iff_of_true ?_ trivial
    intro before none_
    rw [List.prefix_nil.mp none_]
    exact fun call settled => absurd settled List.not_mem_nil
  | append_singleton events event ih =>
    have last : Released (run (step output) ({} : Client Message Value) events) →
        (Released (run (step output) ({} : Client Message Value) (events ++ [event])) ↔
          Careful (run (step output) ({} : Client Message Value) events) event) := by
      intro released
      rw [run_append]
      exact released_step (holds events) released event
    rw [along_append]
    constructor
    · intro each
      have earlier := fun before (within : before <+: events) =>
        each before (within.trans (List.prefix_append _ _))
      exact ⟨ih.mp earlier,
        (last (earlier _ (List.prefix_refl _))).mp (each _ (List.prefix_refl _)), trivial⟩
    · rintro ⟨along, careful, -⟩ before within
      have earlier := ih.mpr along
      rcases List.prefix_concat_iff.mp within with rfl | shorter
      · exact (last (earlier _ (List.prefix_refl _))).mpr careful
      · exact earlier before shorter

/-- The request has been rejected, and its entry still waits for the timeout. -/
theorem failed_send_pending :
    ¬ Settles (run (step some) ({} : Client Unit Unit)
      [.request (.ok ()) "request-1" false, .sent 0 true]) := by
  intro settles
  exact (settles.released 0 (by decide)).1 ("request-1", 0) (by decide) rfl

end HelixKit.Protocol.Requests
