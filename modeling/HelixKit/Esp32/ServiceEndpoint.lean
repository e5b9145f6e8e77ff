/-
Purpose: The embedded service endpoint: which transports a response is sent to, after
  any sequence of requests from any transports.
Trusted boundary: none
Main exports: responses_routed
-/
import HelixKit.Lib.Runs
import Mathlib.Logic.Function.Basic
import Mathlib.Data.List.Dedup
import Mathlib.Data.List.Perm.Subperm

namespace HelixKit.Esp32.ServiceEndpoint

open HelixKit.Runs

/-- The characters of a C string before its NUL. -/
abbrev CString := List UInt8

def requestIdMaxBytes : Nat := 80
def maxTransports : Nat := 4
def maxRequestRoutes : Nat := 16

/-- A packet's request id, in an array that holds it and its NUL. -/
structure RequestId where
  chars : CString
  fits : chars.length < requestIdMaxBytes
deriving Repr, DecidableEq

section Transports

variable {Transport : Type}

structure RequestRoute (Transport : Type) where
  request_id : CString := []
  transport : Option Transport := none
deriving Repr, DecidableEq

structure Endpoint (Transport : Type) where
  transports : List Transport := []
  routes : Nat → RequestRoute Transport := fun _ => {}
  next_route : Nat := 0

/-- The first route for the id. -/
def Endpoint.slot? (endpoint : Endpoint Transport) (request_id : CString) : Option Nat :=
  (List.range maxRequestRoutes).find? fun i => (endpoint.routes i).request_id = request_id

def strlcpy (text : CString) (size : Nat) : CString :=
  text.take (size - 1)

def Endpoint.remember_route (endpoint : Endpoint Transport) (request_id : CString)
    (transport : Transport) : Endpoint Transport :=
  if request_id = [] then endpoint
  else
    match endpoint.slot? request_id with
    | some i =>
      { endpoint with
        routes := Function.update endpoint.routes i
          { endpoint.routes i with transport := some transport } }
    | none =>
      { endpoint with
        routes := Function.update endpoint.routes endpoint.next_route
          ⟨strlcpy request_id requestIdMaxBytes, some transport⟩
        next_route := (endpoint.next_route + 1) % maxRequestRoutes }

def Endpoint.find_route (endpoint : Endpoint Transport) (request_id : Option CString) :
    Option Transport :=
  match request_id with
  | none | some [] => none
  | some id => (endpoint.slot? id).bind fun i => (endpoint.routes i).transport

/-- The transports that a response goes to, of those that can send it. -/
def Endpoint.endpoint_response_sink (endpoint : Endpoint Transport) (request_id : Option CString) :
    List Transport :=
  match endpoint.find_route request_id with
  | some route => [route]
  | none => endpoint.transports

variable {endpoint : Endpoint Transport} {request_id : CString}

variable {i : Nat}

theorem slot?_eq_some (found : endpoint.slot? request_id = some i) :
    i < maxRequestRoutes ∧ (endpoint.routes i).request_id = request_id := by
  have holds := List.find?_some found
  have member := List.mem_of_find?_eq_some found
  exact ⟨List.mem_range.mp member, of_decide_eq_true holds⟩

theorem slot?_eq_none :
    endpoint.slot? request_id = none ↔
      ∀ i < maxRequestRoutes, (endpoint.routes i).request_id ≠ request_id := by
  simp [Endpoint.slot?]

theorem strlcpy_fits (request_id : RequestId) :
    strlcpy request_id.chars requestIdMaxBytes = request_id.chars := by
  apply List.take_of_length_le
  have fits := request_id.fits
  simp only [requestIdMaxBytes] at *
  omega

theorem remember_route_held
    (source : Transport) (named : request_id ≠ []) (found : endpoint.slot? request_id = some i) :
    endpoint.remember_route request_id source =
      { endpoint with
        routes := Function.update endpoint.routes i ⟨request_id, some source⟩ } := by
  have holds := (slot?_eq_some found).2
  simp [Endpoint.remember_route, named, found, holds]

theorem remember_route_new {request_id : RequestId}
    (source : Transport) (named : request_id.chars ≠ [])
    (absent : endpoint.slot? request_id.chars = none) :
    endpoint.remember_route request_id.chars source =
      { endpoint with
        routes := Function.update endpoint.routes endpoint.next_route
          ⟨request_id.chars, some source⟩
        next_route := (endpoint.next_route + 1) % maxRequestRoutes } := by
  simp [Endpoint.remember_route, named, absent, strlcpy_fits]

/-- What changes the endpoint: a transport is attached, or a packet is received. -/
inductive Op (Transport : Type) where
  | attach_transport (transport : Transport)
  | receive (request_id : RequestId) (source : Transport)
deriving DecidableEq

def Op.request_id? : Op Transport → Option CString
  | .attach_transport _ => none
  | .receive request_id _ => some request_id.chars

/-- The ids that the operations receive, each once, without the given one and the empty one. -/
def others (request_id : CString) (ops : List (Op Transport)) : List CString :=
  ((ops.filterMap Op.request_id?).filter fun other => other ≠ request_id ∧ other ≠ []).dedup

/-- The transport that the id comes from when it last came from `source` before the operation. -/
def Op.source (request_id : CString) (source : Transport) : Op Transport → Transport
  | .attach_transport _ => source
  | .receive other transport => if other.chars = request_id then transport else source

/-- The transport that the id was last received from. -/
def lastSource (request_id : CString) (source : Transport) (ops : List (Op Transport)) :
    Transport :=
  ops.foldl (Op.source request_id) source

/-! ## The way of the cursor since an id was entered -/

/-- The id is held in one slot, for the transport; the slots after it, up to the cursor, hold the
ids entered since. -/
structure Entered (request_id : CString) (source : Transport) (slot : Nat) (since : List CString)
    (endpoint : Endpoint Transport) : Prop where
  inside : slot < maxRequestRoutes
  held : endpoint.routes slot = ⟨request_id, some source⟩
  unique : ∀ i < maxRequestRoutes, (endpoint.routes i).request_id = request_id → i = slot
  cursor : endpoint.next_route = (slot + 1 + since.length) % maxRequestRoutes
  later : ∀ k (bound : k < since.length),
    (endpoint.routes ((slot + 1 + k) % maxRequestRoutes)).request_id = since[k]

variable {slot : Nat} {since : List CString}

theorem Entered.slot?_eq {source : Transport}
    (entered : Entered request_id source slot since endpoint) :
    endpoint.slot? request_id = some slot := by
  cases found : endpoint.slot? request_id with
  | none =>
    have absent := slot?_eq_none.mp found slot entered.inside
    simp [entered.held] at absent
  | some i =>
    obtain ⟨inside, holds⟩ := slot?_eq_some found
    rw [entered.unique i inside holds]

variable {other : CString}

theorem Entered.slot_ne {source : Transport}
    (entered : Entered request_id source slot since endpoint) (distinct : other ≠ request_id)
    (found : endpoint.slot? other = some i) : i ≠ slot := by
  rintro rfl
  have holds := (slot?_eq_some found).2
  rw [entered.held] at holds
  exact distinct holds.symm

/-- An id that is not held is none of those entered since. -/
theorem Entered.not_mem {source : Transport}
    (entered : Entered request_id source slot since endpoint)
    (absent : endpoint.slot? other = none) : other ∉ since := by
  intro member
  obtain ⟨k, bound, rfl⟩ := List.mem_iff_getElem.mp member
  have inside : (slot + 1 + k) % maxRequestRoutes < maxRequestRoutes := Nat.mod_lt _ (by decide)
  exact slot?_eq_none.mp absent _ inside (entered.later k bound)

/-- A new id goes to the slot under the cursor. -/
theorem Entered.start {request_id : RequestId} (source : Transport)
    (named : request_id.chars ≠ []) (absent : endpoint.slot? request_id.chars = none)
    (inside : endpoint.next_route < maxRequestRoutes) :
    Entered request_id.chars source endpoint.next_route []
      (endpoint.remember_route request_id.chars source) := by
  rw [remember_route_new source named absent]
  constructor
  · exact inside
  · simp
  · intro i bound holds
    by_contra apart
    simp only [Function.update_of_ne apart] at holds
    exact slot?_eq_none.mp absent i bound holds
  · simp
  · intro k bound
    simp at bound

/-- The same id again: its slot has the new source. -/
theorem Entered.again {source : Transport}
    (entered : Entered request_id source slot since endpoint) (named : request_id ≠ [])
    (fewer : since.length < maxRequestRoutes) (transport : Transport) :
    Entered request_id transport slot since (endpoint.remember_route request_id transport) := by
  rw [remember_route_held transport named entered.slot?_eq]
  constructor
  · exact entered.inside
  · simp
  · intro i bound holds
    by_contra apart
    simp only [Function.update_of_ne apart] at holds
    exact apart (entered.unique i bound holds)
  · exact entered.cursor
  · intro k bound
    by_cases same : (slot + 1 + k) % maxRequestRoutes = slot
    · have inside := entered.inside
      simp only [maxRequestRoutes] at *
      omega
    · simpa [Function.update_of_ne same] using entered.later k bound

/-- Another id that is held: no slot changes its id. -/
theorem Entered.other_held {source : Transport}
    (entered : Entered request_id source slot since endpoint) (named : other ≠ [])
    (distinct : other ≠ request_id) (found : endpoint.slot? other = some i)
    (transport : Transport) :
    Entered request_id source slot since (endpoint.remember_route other transport) := by
  have holds := (slot?_eq_some found).2
  have ids : ∀ j, (Function.update endpoint.routes i ⟨other, some transport⟩ j).request_id =
      (endpoint.routes j).request_id := by
    intro j
    by_cases same : j = i
    · simp [same, holds]
    · simp [same]
  rw [remember_route_held transport named found]
  constructor
  · exact entered.inside
  · have apart := entered.slot_ne distinct found
    simp [Function.update_of_ne apart.symm, entered.held]
  · intro j bound same
    apply entered.unique j bound
    rw [← ids j]
    exact same
  · exact entered.cursor
  · intro k bound
    rw [ids]
    exact entered.later k bound

/-- A new id takes the slot under the cursor, which the way since has not reached. -/
theorem Entered.other_new {other : RequestId} {source : Transport}
    (entered : Entered request_id source slot since endpoint) (named : other.chars ≠ [])
    (distinct : other.chars ≠ request_id) (absent : endpoint.slot? other.chars = none)
    (fewer : since.length + 1 < maxRequestRoutes) (transport : Transport) :
    Entered request_id source slot (since ++ [other.chars])
      (endpoint.remember_route other.chars transport) := by
  have inside := entered.inside
  have cursor := entered.cursor
  have apart : slot ≠ endpoint.next_route := by
    simp only [maxRequestRoutes] at *
    omega
  rw [remember_route_new transport named absent]
  constructor
  · exact inside
  · simp [Function.update_of_ne apart, entered.held]
  · intro i bound holds
    by_cases same : i = endpoint.next_route
    · simp [same, distinct] at holds
    · simp only [Function.update_of_ne same] at holds
      exact entered.unique i bound holds
  · simp only [List.length_append, List.length_singleton, cursor, Nat.mod_add_mod]
    rw [Nat.add_assoc (slot + 1)]
  · intro k bound
    by_cases last : k = since.length
    · subst last
      simp [← cursor]
    · have before : k < since.length := by
        simp only [List.length_append, List.length_singleton] at bound
        omega
      have earlier : (slot + 1 + k) % maxRequestRoutes ≠ endpoint.next_route := by
        simp only [maxRequestRoutes] at *
        omega
      simp only [Function.update_of_ne earlier, List.getElem_append_left before]
      exact entered.later k before

/-- The id is held, and those entered since are some of the given ones. -/
def Routed (request_id : CString) (few : List CString) (source : Transport)
    (endpoint : Endpoint Transport) : Prop :=
  ∃ slot since, Entered request_id source slot since endpoint ∧ since.Nodup ∧ since ⊆ few

variable {few : List CString}

theorem Routed.sink {source : Transport} (routed : Routed request_id few source endpoint)
    (named : request_id ≠ []) :
    endpoint.endpoint_response_sink (some request_id) = [source] := by
  obtain ⟨slot, since, entered, -, -⟩ := routed
  cases request_id with
  | nil => exact absurd rfl named
  | cons first rest =>
    simp [Endpoint.endpoint_response_sink, Endpoint.find_route, entered.slot?_eq, entered.held]

variable [DecidableEq Transport]

def step (endpoint : Endpoint Transport) : Op Transport → Endpoint Transport
  | .attach_transport transport =>
    if transport ∈ endpoint.transports ∨ maxTransports ≤ endpoint.transports.length then endpoint
    else { endpoint with transports := endpoint.transports ++ [transport] }
  | .receive request_id source => endpoint.remember_route request_id.chars source

/-- The cursor stays in the table. -/
theorem next_route_lt (ops : List (Op Transport)) :
    (run step ({} : Endpoint Transport) ops).next_route < maxRequestRoutes := by
  have all : Along step (fun _ _ => True) ({} : Endpoint Transport) ops :=
    Along.of_forall fun _ _ _ => trivial
  apply all.invariant fun endpoint => endpoint.next_route < maxRequestRoutes
  · intro endpoint op bound _
    cases op with
    | attach_transport transport =>
      simp only [step]
      split
      · exact bound
      · exact bound
    | receive request_id source =>
      simp only [step, Endpoint.remember_route]
      split
      · exact bound
      split
      · exact bound
      · exact Nat.mod_lt _ (by decide)
  · exact Nat.zero_lt_succ 15

theorem length_lt_of_subset (nodup : since.Nodup) (subset : since ⊆ few)
    (fewer : few.length < maxRequestRoutes) : since.length < maxRequestRoutes :=
  Nat.lt_of_le_of_lt (List.subperm_of_subset nodup subset).length_le fewer

/-- What one operation does to the route of an id. -/
theorem Routed.after_step {source : Transport} (routed : Routed request_id few source endpoint)
    (named : request_id ≠ []) (fewer : few.length < maxRequestRoutes) (op : Op Transport)
    (among : ∀ other, op.request_id? = some other → other ≠ request_id → other ≠ [] →
      other ∈ few) :
    Routed request_id few (op.source request_id source) (step endpoint op) := by
  obtain ⟨slot, since, entered, nodup, subset⟩ := routed
  cases op with
  | attach_transport transport =>
    refine ⟨slot, since, ?_, nodup, subset⟩
    simp only [step]
    split
    · exact entered
    · exact ⟨entered.inside, entered.held, entered.unique, entered.cursor, entered.later⟩
  | receive other transport =>
    by_cases same : other.chars = request_id
    · have short := length_lt_of_subset nodup subset fewer
      refine ⟨slot, since, ?_, nodup, subset⟩
      simp only [step, Op.source, same, if_true]
      exact entered.again named short transport
    by_cases empty : other.chars = []
    · refine ⟨slot, since, ?_, nodup, subset⟩
      simp only [step, Op.source, same, if_false]
      simpa [Endpoint.remember_route, empty] using entered
    simp only [step, Op.source, same, if_false]
    cases found : endpoint.slot? other.chars with
    | some i =>
      exact ⟨slot, since, entered.other_held empty same found transport, nodup, subset⟩
    | none =>
      have fresh := entered.not_mem found
      have more : (since ++ [other.chars]).Nodup := by
        apply List.Nodup.append nodup (List.nodup_singleton _)
        simpa using fresh
      have within : since ++ [other.chars] ⊆ few := by
        apply List.append_subset.mpr
        exact ⟨subset, by simpa using among _ rfl same empty⟩
      have short := length_lt_of_subset more within fewer
      rw [List.length_append, List.length_singleton] at short
      exact ⟨slot, _, entered.other_new empty same found short transport, more, within⟩

theorem Routed.after_run {source : Transport} (routed : Routed request_id few source endpoint)
    (named : request_id ≠ []) (fewer : few.length < maxRequestRoutes) (ops : List (Op Transport))
    (among : others request_id ops ⊆ few) :
    Routed request_id few (lastSource request_id source ops) (run step endpoint ops) := by
  induction ops generalizing endpoint source with
  | nil => exact routed
  | cons op rest ih =>
    apply ih
    · apply routed.after_step named fewer
      intro other received distinct nonempty
      apply among
      simp only [others, List.mem_dedup, List.mem_filter, List.mem_filterMap]
      exact ⟨⟨op, List.mem_cons_self, received⟩, by simp [distinct, nonempty]⟩
    · intro other member
      apply among
      simp only [others, List.mem_dedup, List.mem_filter, List.mem_filterMap] at member ⊢
      obtain ⟨⟨later, inside, received⟩, rest⟩ := member
      exact ⟨⟨later, List.mem_cons_of_mem op inside, received⟩, rest⟩

/-! ## The routing of responses -/

/-- From the receipt of a request whose id the table does not hold, the responses to it go to the
transport that it was last received from, until as many other ids as the table has slots have been
received. -/
theorem responses_routed (before after : List (Op Transport)) (request_id : RequestId)
    (source : Transport) (named : request_id.chars ≠ [])
    (enters : (run step ({} : Endpoint Transport) before).slot? request_id.chars = none)
    (fewer : (others request_id.chars after).length < maxRequestRoutes) :
    (run step ({} : Endpoint Transport)
        (before ++ .receive request_id source :: after)).endpoint_response_sink
      (some request_id.chars) = [lastSource request_id.chars source after] := by
  have start := Entered.start source named enters (next_route_lt before)
  have routed : Routed request_id.chars (others request_id.chars after) source
      ((run step ({} : Endpoint Transport) before).remember_route request_id.chars source) :=
    ⟨_, [], start, List.nodup_nil, List.nil_subset _⟩
  rw [run_append, run_cons]
  exact (routed.after_run named fewer after (List.Subset.refl _)).sink named

end Transports

/-- Request ids of one character each. -/
def letter (code : UInt8) : RequestId where
  chars := [code]
  fits := by simp [requestIdMaxBytes]

/-- A request is received from the first transport and again from the second one. -/
theorem responses_routed_again :
    (letter 82).chars ≠ [] ∧
      (run step ({} : Endpoint Nat) [.attach_transport 1, .attach_transport 2]).slot?
        (letter 82).chars = none ∧
      (others (letter 82).chars
        [Op.receive (letter 97) 1, .receive (letter 82) 2]).length < maxRequestRoutes ∧
      (run step ({} : Endpoint Nat)
          ([.attach_transport 1, .attach_transport 2] ++
            .receive (letter 82) 1 :: [.receive (letter 97) 1, .receive (letter 82) 2])
        ).endpoint_response_sink (some (letter 82).chars) =
        [lastSource (letter 82).chars 1 [Op.receive (letter 97) 1, .receive (letter 82) 2]] := by
  have named : (letter 82).chars ≠ [] := by decide
  have enters : (run step ({} : Endpoint Nat)
      [.attach_transport 1, .attach_transport 2]).slot? (letter 82).chars = none := by decide
  have fewer : (others (letter 82).chars
      [Op.receive (letter 97) 1, .receive (letter 82) 2]).length < maxRequestRoutes := by decide
  exact ⟨named, enters, fewer, responses_routed _ _ _ _ named enters fewer⟩

/-- A request from the first transport, fifteen others from the second, the first request again. -/
def refreshed : List (Op Nat) :=
  [.attach_transport 1, .attach_transport 2, .receive (letter 82) 1] ++
    (List.range 15).map fun i => .receive (letter (UInt8.ofNat (97 + i))) 2

/-- The refreshed route is evicted by one more request, and the response goes to both. -/
theorem refreshed_response_broadcast :
    ¬ ∀ (before after : List (Op Nat)) (request_id : RequestId) (source : Nat),
      request_id.chars ≠ [] →
      some request_id.chars ∉ after.map Op.request_id? →
      (others request_id.chars after).length < maxRequestRoutes →
      (run step ({} : Endpoint Nat)
          (before ++ .receive request_id source :: after)).endpoint_response_sink
        (some request_id.chars) = [source] := by
  intro all
  have routed := all refreshed [.receive (letter 122) 2] (letter 82) 1 (by decide) (by decide)
    (by decide)
  revert routed
  decide

end HelixKit.Esp32.ServiceEndpoint
