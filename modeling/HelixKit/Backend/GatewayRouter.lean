/-
Purpose: The router between browser connections and devices: which connections a
  packet of a device is sent to, in every run of its operations.
Trusted boundary: none
Main exports: packets_routed
-/
import HelixKit.Backend.JsValue
import HelixKit.Lib.Runs
import HelixKit.Lib.Separator
import Mathlib.Logic.Function.Basic
import Mathlib.Data.List.Basic

namespace HelixKit.Backend

open HelixKit.Runs
open HelixKit.Separator

/-! ### The router -/

structure GatewayClient where
  connectionId : JsString
  deviceId : JsString
deriving Repr, DecidableEq

/-- The field `sessionId` of a payload. -/
inductive SessionField where
  | string (value : JsString)
  | other
deriving Repr, DecidableEq

inductive Payload where
  | object (sessionId : Option SessionField)
  | other
deriving Repr, DecidableEq

structure Packet where
  requestId : Option JsString := none
  payload : Payload := .other
deriving Repr, DecidableEq

structure RequestOwner where
  connectionId : JsString
  expiresAt : Int
deriving Repr, DecidableEq

def requestOwnerKey (deviceId requestId : JsString) : JsString :=
  decimal deviceId.length ++ (58 : UInt16) :: (deviceId ++ requestId)

def sessionIdOf (packet : Packet) : Option JsString :=
  match packet.payload with
  | .object (some (.string sessionId)) => if sessionId = [] then none else some sessionId
  | .object _ | .other => none

structure GatewayRouter where
  clients : List GatewayClient := []
  requestOwnerTtlMs : Int := 120000
  requestOwners : JsString → Option RequestOwner := fun _ => none
  sessionOwners : JsString → Option JsString := fun _ => none

/-- `#clients.get`. -/
def GatewayRouter.client? (router : GatewayRouter) (connectionId : JsString) : Option GatewayClient :=
  router.clients.find? (·.connectionId = connectionId)

/-- `#clients.set`: an entry that is there keeps its place. -/
def GatewayRouter.addClient (router : GatewayRouter) (client : GatewayClient) : GatewayRouter :=
  if (router.client? client.connectionId).isSome then
    { router with clients := router.clients.map fun other =>
        if other.connectionId = client.connectionId then client else other }
  else { router with clients := router.clients ++ [client] }

def GatewayRouter.removeClient (router : GatewayRouter) (connectionId : JsString) : GatewayRouter :=
  { router with
    clients := router.clients.filter (·.connectionId ≠ connectionId)
    requestOwners := fun key => (router.requestOwners key).filter (·.connectionId ≠ connectionId)
    sessionOwners := fun key => (router.sessionOwners key).filter (· ≠ connectionId) }

/-- The client that opens a session keeps it. -/
def GatewayRouter.learnSession (router : GatewayRouter) (client : GatewayClient) (packet : Packet) :
    GatewayRouter :=
  match sessionIdOf packet with
  | none => router
  | some sessionId =>
    let key := requestOwnerKey client.deviceId sessionId
    let owned := (router.sessionOwners key).any fun owner => (router.client? owner).isSome
    if owned then router
    else { router with
      sessionOwners := Function.update router.sessionOwners key (some client.connectionId) }

def GatewayRouter.recordRequest (router : GatewayRouter) (client : GatewayClient) (packet : Packet)
    (now : Int) : GatewayRouter :=
  match packet.requestId with
  | none => router
  | some requestId =>
    { router with
      requestOwners := Function.update router.requestOwners
        (requestOwnerKey client.deviceId requestId)
        (some ⟨client.connectionId, now + router.requestOwnerTtlMs⟩) }

/-- The router after a packet from a connection, and the device it is sent on to. -/
def GatewayRouter.receiveFromClient (router : GatewayRouter) (connectionId : JsString)
    (packet : Packet) (now : Int) : GatewayRouter × Option JsString :=
  match router.client? connectionId with
  | none => (router, none)
  | some client =>
    ((router.learnSession client packet).recordRequest client packet now, some client.deviceId)

def GatewayRouter.broadcastFromDevice (router : GatewayRouter) (deviceId : JsString) :
    List GatewayClient :=
  router.clients.filter (·.deviceId = deviceId)

/-- A connected client, if it is connected to the device. -/
def GatewayRouter.clientOf? (router : GatewayRouter) (connectionId deviceId : JsString) :
    Option GatewayClient :=
  (router.client? connectionId).filter (·.deviceId = deviceId)

/-- Where a packet goes that no request owner takes. -/
def GatewayRouter.routeBySession (router : GatewayRouter) (deviceId : JsString) (packet : Packet) :
    List GatewayClient :=
  let owner := (sessionIdOf packet).bind fun sessionId =>
    router.sessionOwners (requestOwnerKey deviceId sessionId)
  match owner.bind fun owner => router.clientOf? owner deviceId with
  | some client => [client]
  | none => router.broadcastFromDevice deviceId

/-- The router after a packet from a device, and the clients it is sent to. -/
def GatewayRouter.receiveFromDevice (router : GatewayRouter) (deviceId : JsString) (packet : Packet)
    (now : Int) : GatewayRouter × List GatewayClient :=
  match packet.requestId with
  | none => (router, router.routeBySession deviceId packet)
  | some requestId =>
    let ownerKey := requestOwnerKey deviceId requestId
    match router.requestOwners ownerKey with
    | none => (router, router.routeBySession deviceId packet)
    | some requestOwner =>
      if requestOwner.expiresAt ≤ now then
        let router := { router with
          requestOwners := Function.update router.requestOwners ownerKey none }
        (router, router.routeBySession deviceId packet)
      else
        match router.clientOf? requestOwner.connectionId deviceId with
        | some owner => (router, [owner])
        | none => (router, router.routeBySession deviceId packet)

/-! ### Runs -/

/-- A request that a connected client has sent. -/
structure Sent where
  connectionId : JsString
  deviceId : JsString
  requestId : JsString
deriving Repr, DecidableEq

/-- The router, and the requests that clients have sent, the last one first. -/
structure System where
  router : GatewayRouter := {}
  sent : List Sent := []

inductive Op where
  | addClient (client : GatewayClient)
  | removeClient (connectionId : JsString)
  | receiveFromClient (connectionId : JsString) (packet : Packet) (now : Int)
  | receiveFromDevice (deviceId : JsString) (packet : Packet) (now : Int)
deriving Repr, DecidableEq

/-- What a packet of a client adds to the requests that were sent. -/
def System.sends (s : System) (connectionId : JsString) (packet : Packet) : List Sent :=
  match s.router.client? connectionId, packet.requestId with
  | some client, some requestId => [⟨client.connectionId, client.deviceId, requestId⟩]
  | _, _ => []

def step (s : System) : Op → System
  | .addClient client => { s with router := s.router.addClient client }
  | .removeClient connectionId => { s with router := s.router.removeClient connectionId }
  | .receiveFromClient connectionId packet now =>
    { router := (s.router.receiveFromClient connectionId packet now).1
      sent := s.sends connectionId packet ++ s.sent }
  | .receiveFromDevice deviceId packet now =>
    { s with router := (s.router.receiveFromDevice deviceId packet now).1 }

/-- The connection that last sent a request with the id to the device. -/
def System.lastSender? (s : System) (deviceId requestId : JsString) : Option JsString :=
  (s.sent.find? fun sent => sent.deviceId = deviceId ∧ sent.requestId = requestId).map
    (·.connectionId)

/-- A connection id is new when its client is added. -/
def Unique (s : System) : Op → Prop
  | .addClient client => s.router.client? client.connectionId = none
  | _ => True

/-- The packet has a request id that is recorded for the device and not expired. -/
def GatewayRouter.Recorded (router : GatewayRouter) (deviceId : JsString) (packet : Packet)
    (now : Int) : Prop :=
  ∃ requestId owner, packet.requestId = some requestId ∧
    router.requestOwners (requestOwnerKey deviceId requestId) = some owner ∧ now < owner.expiresAt

/-- Where a packet of the device goes: only to clients of the device; to the one that
last sent its request id, while that is recorded; else to the owner of its session. -/
structure Delivers (s : System) (deviceId : JsString) (packet : Packet) (now : Int)
    (receivers : List GatewayClient) : Prop where
  own : ∀ client ∈ receivers, client ∈ s.router.clients ∧ client.deviceId = deviceId
  request : s.router.Recorded deviceId packet now → ∃ requestId client,
    packet.requestId = some requestId ∧ client ∈ s.router.clients ∧
      s.lastSender? deviceId requestId = some client.connectionId ∧ receivers = [client]
  session : ¬ s.router.Recorded deviceId packet now → ∀ sessionId owner client,
    sessionIdOf packet = some sessionId →
    s.router.sessionOwners (requestOwnerKey deviceId sessionId) = some owner →
    s.router.client? owner = some client → receivers = [client]

/-- What an operation does: it delivers as it should, it takes no session from a client
that stays connected, and the maps name connected clients only, none that it removes. -/
structure Routed (s : System) (op : Op) : Prop where
  delivers : ∀ deviceId packet now, op = .receiveFromDevice deviceId packet now →
    Delivers s deviceId packet now (s.router.receiveFromDevice deviceId packet now).2
  keeps : ∀ key owner, s.router.sessionOwners key = some owner →
    (s.router.client? owner).isSome → op ≠ .removeClient owner →
      (step s op).router.sessionOwners key = some owner
  connected : ∀ key,
    (∀ owner, (step s op).router.requestOwners key = some owner →
      ((step s op).router.client? owner.connectionId).isSome) ∧
    ∀ owner, (step s op).router.sessionOwners key = some owner →
      ((step s op).router.client? owner).isSome
  removed : ∀ connectionId, op = .removeClient connectionId →
    (step s op).router.client? connectionId = none

/-! ### Keys -/

theorem digit_toNat {digit : Char} {n : Nat} (member : digit ∈ Nat.toDigits 10 n) :
    48 ≤ digit.toNat ∧ digit.toNat ≤ 57 := by
  have isDigit := Nat.isDigit_of_mem_toDigits (by decide) (by decide) member
  simp only [Char.isDigit, Bool.and_eq_true, decide_eq_true_eq, ge_iff_le] at isDigit
  exact ⟨UInt32.le_iff_toNat_le.1 isDigit.1, UInt32.le_iff_toNat_le.1 isDigit.2⟩

theorem unit_toNat {digit : Char} {n : Nat} (member : digit ∈ Nat.toDigits 10 n) :
    (UInt16.ofNat digit.toNat).toNat = digit.toNat := by
  have small := (digit_toNat member).2
  apply UInt16.toNat_ofNat_of_lt'
  simp only [UInt16.size]
  omega

theorem decimal_inj {n m : Nat} (same : decimal n = decimal m) : n = m := by
  have digits : ∀ k, (decimal k).map (fun unit => Char.ofNat unit.toNat) = Nat.toDigits 10 k := by
    intro k
    rw [decimal, List.map_map]
    calc (Nat.toDigits 10 k).map _
        _ = (Nat.toDigits 10 k).map id := by
          apply List.map_congr_left
          intro digit member
          simp only [Function.comp_apply, unit_toNat member, Char.ofNat_toNat, id_eq]
        _ = Nat.toDigits 10 k := List.map_id _
  exact toDigits_inj ((digits n).symm.trans (same ▸ digits m))

theorem colon_notMem_decimal (n : Nat) : (58 : UInt16) ∉ decimal n := by
  intro member
  obtain ⟨digit, there, colon⟩ := List.mem_map.1 member
  have small := (digit_toNat there).2
  have value := unit_toNat there
  rw [colon] at value
  have colon_toNat : (58 : UInt16).toNat = 58 := rfl
  omega

/-- Decimal digits do not reach past a colon. -/
theorem decimal_colon_inj {n m : Nat} {rest other : JsString}
    (same : decimal n ++ (58 : UInt16) :: rest = decimal m ++ (58 : UInt16) :: other) :
    n = m ∧ rest = other := by
  obtain ⟨numbers, rests⟩ :=
    append_sep_inj (colon_notMem_decimal n) (colon_notMem_decimal m) same
  exact ⟨decimal_inj numbers, rests⟩

theorem requestOwnerKey_inj {deviceId device requestId request : JsString}
    (same : requestOwnerKey deviceId requestId = requestOwnerKey device request) :
    deviceId = device ∧ requestId = request := by
  obtain ⟨lengths, rest⟩ := decimal_colon_inj same
  exact List.append_inj rest lengths

/-! ### The clients -/

section Clients

variable {router : GatewayRouter}

variable {connectionId : JsString} {client : GatewayClient}

theorem client?_some (found : router.client? connectionId = some client) :
    client ∈ router.clients ∧ client.connectionId = connectionId :=
  ⟨List.mem_of_find?_eq_some found, by simpa using List.find?_some found⟩

theorem addClient_eq (router : GatewayRouter) (client : GatewayClient) :
    router.addClient client = { router with clients := (router.addClient client).clients } := by
  unfold GatewayRouter.addClient
  split
  · rfl
  · rfl

/-- Clients that are connected stay connected when one is added. -/
theorem addClient_client? {other : GatewayClient} (new : router.client? client.connectionId = none)
    (found : router.client? connectionId = some other) :
    (router.addClient client).client? connectionId = some other := by
  unfold GatewayRouter.addClient
  rw [new]
  simp only [Option.isSome_none, Bool.false_eq_true, if_false, GatewayRouter.client?,
    List.find?_append]
  rw [GatewayRouter.client?] at found
  rw [found]
  rfl

theorem removeClient_client? {other : JsString} (different : other ≠ connectionId) :
    (router.removeClient connectionId).client? other = router.client? other := by
  unfold GatewayRouter.client? GatewayRouter.removeClient
  rw [List.find?_filter]
  congr 1
  funext client
  by_cases same : client.connectionId = other
  · simp [same, different]
  · simp [same]

theorem removeClient_self (connectionId : JsString) :
    (router.removeClient connectionId).client? connectionId = none := by
  unfold GatewayRouter.client? GatewayRouter.removeClient
  rw [List.find?_eq_none]
  intro client member
  simpa using (List.mem_filter.1 member).2

theorem clientOf?_eq_some {deviceId : JsString} :
    router.clientOf? connectionId deviceId = some client ↔
      router.client? connectionId = some client ∧ client.deviceId = deviceId := by
  simp [GatewayRouter.clientOf?, Option.filter_eq_some_iff]

end Clients

/-! ### The invariant -/

/-- An owner is connected, to the device that the key is for, and for a request it is the
last one that sent it. -/
structure Inv (s : System) : Prop where
  requests : ∀ key owner, s.router.requestOwners key = some owner → ∃ client requestId,
    s.router.client? owner.connectionId = some client ∧
      key = requestOwnerKey client.deviceId requestId ∧
      s.lastSender? client.deviceId requestId = some owner.connectionId
  sessions : ∀ key owner, s.router.sessionOwners key = some owner → ∃ client sessionId,
    s.router.client? owner = some client ∧ key = requestOwnerKey client.deviceId sessionId

theorem inv_start (ttl : Int) : Inv { router := { requestOwnerTtlMs := ttl } } where
  requests := by
    intro key owner recorded
    cases recorded
  sessions := by
    intro key owner owned
    cases owned

namespace Inv

variable {s : System}

theorem addClient (inv : Inv s) (client : GatewayClient)
    (new : s.router.client? client.connectionId = none) : Inv (step s (.addClient client)) := by
  constructor
  · intro key owner recorded
    rw [Backend.step, addClient_eq] at recorded
    obtain ⟨other, requestId, found, rest⟩ := inv.requests key owner recorded
    exact ⟨other, requestId, addClient_client? new found, rest⟩
  · intro key owner owned
    rw [Backend.step, addClient_eq] at owned
    obtain ⟨other, sessionId, found, rest⟩ := inv.sessions key owner owned
    exact ⟨other, sessionId, addClient_client? new found, rest⟩

theorem removeClient (inv : Inv s) (connectionId : JsString) :
    Inv (step s (.removeClient connectionId)) := by
  constructor
  · intro key owner recorded
    obtain ⟨recorded, different⟩ := Option.filter_eq_some_iff.1 recorded
    have different : owner.connectionId ≠ connectionId := by simpa using different
    obtain ⟨other, requestId, found, rest⟩ := inv.requests key owner recorded
    exact ⟨other, requestId, (removeClient_client? different).trans found, rest⟩
  · intro key owner owned
    obtain ⟨owned, different⟩ := Option.filter_eq_some_iff.1 owned
    have different : owner ≠ connectionId := by simpa using different
    obtain ⟨other, sessionId, found, rest⟩ := inv.sessions key owner owned
    exact ⟨other, sessionId, (removeClient_client? different).trans found, rest⟩

theorem learnSession (inv : Inv s) {client : GatewayClient}
    (found : s.router.client? client.connectionId = some client) (packet : Packet) :
    Inv { s with router := s.router.learnSession client packet } := by
  unfold GatewayRouter.learnSession
  split
  · exact inv
  next sessionId carries =>
    simp only []
    split
    · exact inv
    constructor
    · exact inv.requests
    · intro key owner owned
      by_cases same : key = requestOwnerKey client.deviceId sessionId
      · subst same
        simp only [Function.update_self, Option.some.injEq] at owned
        subst owned
        exact ⟨client, sessionId, found, rfl⟩
      · simp only [Function.update_of_ne same] at owned
        exact inv.sessions key owner owned

/-- A request of a connected client is recorded as the last one with its id. -/
theorem recordRequest (inv : Inv s) {client : GatewayClient}
    (found : s.router.client? client.connectionId = some client) (packet : Packet) (now : Int) :
    Inv { router := s.router.recordRequest client packet now
          sent := packet.requestId.toList.map (⟨client.connectionId, client.deviceId, ·⟩) ++ s.sent } := by
  cases carries : packet.requestId with
  | none =>
    simp only [GatewayRouter.recordRequest, carries, Option.toList_none, List.map_nil,
      List.nil_append]
    exact inv
  | some requestId =>
    simp only [GatewayRouter.recordRequest, carries, Option.toList_some, List.map_cons,
      List.map_nil, List.cons_append, List.nil_append]
    constructor
    · intro key owner recorded
      by_cases same : key = requestOwnerKey client.deviceId requestId
      · subst same
        simp only [Function.update_self, Option.some.injEq] at recorded
        subst recorded
        exact ⟨client, requestId, found, rfl, by simp [System.lastSender?]⟩
      · simp only [Function.update_of_ne same] at recorded
        obtain ⟨other, request, connected, rfl, last⟩ := inv.requests key owner recorded
        have different : ¬ (client.deviceId = other.deviceId ∧ requestId = request) := by
          rintro ⟨device, rfl⟩
          exact same (by rw [device])
        refine ⟨other, request, connected, rfl, ?_⟩
        rw [System.lastSender?] at last ⊢
        rw [List.find?_cons_of_neg (by simpa using different)]
        exact last
    · exact inv.sessions

theorem receiveFromClient (inv : Inv s) (connectionId : JsString) (packet : Packet) (now : Int) :
    Inv (step s (.receiveFromClient connectionId packet now)) := by
  cases here : s.router.client? connectionId with
  | none =>
    simp only [step, GatewayRouter.receiveFromClient, System.sends, here, List.nil_append]
    exact inv
  | some client =>
    have own := (client?_some here).2
    have found : s.router.client? client.connectionId = some client := own ▸ here
    have sends : s.sends connectionId packet =
        packet.requestId.toList.map (⟨client.connectionId, client.deviceId, ·⟩) := by
      rw [System.sends, here]
      cases packet.requestId with
      | none | some => rfl
    simp only [step, GatewayRouter.receiveFromClient, here, sends]
    apply (inv.learnSession found packet).recordRequest
    have same : (s.router.learnSession client packet).clients = s.router.clients := by
      unfold GatewayRouter.learnSession
      split
      · rfl
      simp only []
      split
      · rfl
      · rfl
    simpa only [GatewayRouter.client?, same] using found

theorem receiveFromDevice (inv : Inv s) (deviceId : JsString) (packet : Packet) (now : Int) :
    Inv (step s (.receiveFromDevice deviceId packet now)) := by
  simp only [step, GatewayRouter.receiveFromDevice]
  split
  · exact inv
  next requestId _ =>
    split
    · exact inv
    split
    · constructor
      · intro key owner recorded
        by_cases same : key = requestOwnerKey deviceId requestId
        · rw [same] at recorded
          simp at recorded
        · simp only [Function.update_of_ne same] at recorded
          exact inv.requests key owner recorded
      · exact inv.sessions
    · split
      · exact inv
      · exact inv

/-- Every operation keeps the invariant. -/
theorem step (inv : Inv s) (op : Op) (unique : Unique s op) : Inv (step s op) := by
  cases op with
  | addClient client => exact inv.addClient client unique
  | removeClient connectionId => exact inv.removeClient connectionId
  | receiveFromClient connectionId packet now => exact inv.receiveFromClient connectionId packet now
  | receiveFromDevice deviceId packet now => exact inv.receiveFromDevice deviceId packet now

end Inv

/-! ### Where packets go -/

section Routing

variable {router : GatewayRouter} {deviceId : JsString} {packet : Packet} {now : Int}

theorem routeBySession_own {client : GatewayClient}
    (member : client ∈ router.routeBySession deviceId packet) :
    client ∈ router.clients ∧ client.deviceId = deviceId := by
  unfold GatewayRouter.routeBySession at member
  simp only [] at member
  split at member
  next owner found =>
    obtain ⟨connectionId, -, there⟩ := Option.bind_eq_some_iff.1 found
    obtain ⟨connected, device⟩ := clientOf?_eq_some.1 there
    cases List.mem_singleton.1 member
    exact ⟨(client?_some connected).1, device⟩
  · obtain ⟨connected, device⟩ := List.mem_filter.1 member
    exact ⟨connected, by simpa using device⟩

theorem routeBySession_owner {sessionId owner : JsString} {client : GatewayClient}
    (carries : sessionIdOf packet = some sessionId)
    (owned : router.sessionOwners (requestOwnerKey deviceId sessionId) = some owner)
    (found : router.clientOf? owner deviceId = some client) :
    router.routeBySession deviceId packet = [client] := by
  simp [GatewayRouter.routeBySession, carries, owned, found]

/-- A packet goes to the owner of its request while that is recorded and connected to the
device, and by its session otherwise. -/
theorem receiveFromDevice_sends :
    (∃ requestId owner client, packet.requestId = some requestId ∧
      router.requestOwners (requestOwnerKey deviceId requestId) = some owner ∧
      now < owner.expiresAt ∧ router.clientOf? owner.connectionId deviceId = some client ∧
      (router.receiveFromDevice deviceId packet now).2 = [client]) ∨
    (router.receiveFromDevice deviceId packet now).2 = router.routeBySession deviceId packet ∧
      ∀ requestId owner, packet.requestId = some requestId →
        router.requestOwners (requestOwnerKey deviceId requestId) = some owner →
        now < owner.expiresAt → router.clientOf? owner.connectionId deviceId = none := by
  cases carries : packet.requestId with
  | none =>
    right
    exact ⟨by simp [GatewayRouter.receiveFromDevice, carries], by simp⟩
  | some requestId =>
    cases recorded : router.requestOwners (requestOwnerKey deviceId requestId) with
    | none =>
      right
      refine ⟨by simp [GatewayRouter.receiveFromDevice, carries, recorded], ?_⟩
      rintro _ owner ⟨⟩ there
      rw [recorded] at there
      cases there
    | some owner =>
      by_cases expired : owner.expiresAt ≤ now
      · right
        refine ⟨?_, ?_⟩
        · simp only [GatewayRouter.receiveFromDevice, carries, recorded, if_pos expired]
          rfl
        · rintro _ other ⟨⟩ there fresh
          rw [recorded] at there
          cases there
          omega
      · cases found : router.clientOf? owner.connectionId deviceId with
        | none =>
          right
          refine ⟨?_, ?_⟩
          · simp only [GatewayRouter.receiveFromDevice, carries, recorded, if_neg expired, found]
          · rintro _ other ⟨⟩ there _
            rw [recorded] at there
            cases there
            exact found
        | some client =>
          left
          refine ⟨requestId, owner, client, rfl, recorded, by omega, found, ?_⟩
          simp only [GatewayRouter.receiveFromDevice, carries, recorded, if_neg expired, found]

end Routing

variable {s : System}

theorem delivers (inv : Inv s) (deviceId : JsString) (packet : Packet) (now : Int) :
    Delivers s deviceId packet now (s.router.receiveFromDevice deviceId packet now).2 := by
  -- A recorded owner is connected, and to this device since keys are different for others.
  have recorded : ∀ {requestId owner},
      s.router.requestOwners (requestOwnerKey deviceId requestId) = some owner → ∃ client,
        s.router.clientOf? owner.connectionId deviceId = some client ∧
          s.lastSender? deviceId requestId = some owner.connectionId := by
    intro requestId owner there
    obtain ⟨client, request, found, same, last⟩ := inv.requests _ owner there
    obtain ⟨rfl, rfl⟩ := requestOwnerKey_inj same
    exact ⟨client, clientOf?_eq_some.2 ⟨found, rfl⟩, last⟩
  rcases receiveFromDevice_sends with
    ⟨requestId, owner, client, carries, there, fresh, found, sends⟩ | ⟨sends, missing⟩
  · rw [sends]
    obtain ⟨connected, device⟩ := clientOf?_eq_some.1 found
    obtain ⟨member, same⟩ := client?_some connected
    obtain ⟨-, -, last⟩ := recorded there
    constructor
    · intro other only
      cases List.mem_singleton.1 only
      exact ⟨member, device⟩
    · intro _
      exact ⟨requestId, client, carries, member, same ▸ last, rfl⟩
    · intro unrecorded
      exact absurd ⟨requestId, owner, carries, there, fresh⟩ unrecorded
  · rw [sends]
    constructor
    · intro client member
      exact routeBySession_own member
    · rintro ⟨requestId, owner, carries, there, fresh⟩
      obtain ⟨client, found, -⟩ := recorded there
      rw [missing requestId owner carries there fresh] at found
      cases found
    · intro _ sessionId owner client carries owned connected
      obtain ⟨other, session, found, same⟩ := inv.sessions _ owner owned
      obtain ⟨rfl, -⟩ := requestOwnerKey_inj same
      rw [connected] at found
      cases found
      exact routeBySession_owner carries owned (clientOf?_eq_some.2 ⟨connected, rfl⟩)

theorem learnSession_keeps (client : GatewayClient) (packet : Packet) {key owner : JsString}
    (owned : s.router.sessionOwners key = some owner) (connected : (s.router.client? owner).isSome) :
    (s.router.learnSession client packet).sessionOwners key = some owner := by
  unfold GatewayRouter.learnSession
  split
  · exact owned
  next sessionId _ =>
    simp only []
    split
    · exact owned
    next free =>
      have other : key ≠ requestOwnerKey client.deviceId sessionId := by
        rintro rfl
        rw [owned] at free
        exact free (by simpa using connected)
      simpa only [Function.update_of_ne other] using owned

/-- A session stays with a connected owner. -/
theorem keeps_sessions (op : Op) {key owner : JsString} (owned : s.router.sessionOwners key = some owner)
    (connected : (s.router.client? owner).isSome) (stays : op ≠ .removeClient owner) :
    (step s op).router.sessionOwners key = some owner := by
  cases op with
  | addClient client =>
    rw [step, addClient_eq]
    exact owned
  | removeClient connectionId =>
    have other : owner ≠ connectionId := fun same => stays (same ▸ rfl)
    exact Option.filter_eq_some_iff.2 ⟨owned, by simpa using other⟩
  | receiveFromClient connectionId packet now =>
    simp only [step, GatewayRouter.receiveFromClient]
    split
    · exact owned
    next client _ =>
      have learnt := learnSession_keeps client packet owned connected
      unfold GatewayRouter.recordRequest
      split
      · exact learnt
      · exact learnt
  | receiveFromDevice deviceId packet now =>
    simp only [step, GatewayRouter.receiveFromDevice]
    split
    · exact owned
    split
    · exact owned
    split
    · exact owned
    split
    · exact owned
    · exact owned

theorem routed (inv : Inv s) (op : Op) (unique : Unique s op) : Routed s op where
  delivers := fun deviceId packet now _ => delivers inv deviceId packet now
  keeps := fun _ _ owned connected stays => keeps_sessions op owned connected stays
  connected := by
    intro key
    have after := inv.step op unique
    constructor
    · intro owner recorded
      obtain ⟨client, -, found, -⟩ := after.requests key owner recorded
      simp [found]
    · intro owner owned
      obtain ⟨client, -, found, -⟩ := after.sessions key owner owned
      simp [found]
  removed := by
    rintro connectionId rfl
    exact removeClient_self connectionId

/-- In every run in which connection ids are unique, every operation does as it should. -/
theorem packets_routed (ttl : Int) (ops : List Op)
    (unique : Along step Unique { router := { requestOwnerTtlMs := ttl } } ops) :
    Along step Routed { router := { requestOwnerTtlMs := ttl } } ops :=
  unique.always Inv (fun _ op inv new => inv.step op new) (fun _ op inv new => routed inv op new)
    (inv_start ttl)

/-- Two clients of one device, the second of which asks and gets the answer. -/
theorem packets_routed_two :
    Along step Routed { router := { requestOwnerTtlMs := 120000 } }
      [.addClient ⟨[97], [100]⟩, .addClient ⟨[98], [100]⟩,
        .receiveFromClient [98] { requestId := some [49], payload := .object (some (.string [115])) } 0,
        .receiveFromDevice [100] { requestId := some [49] } 5,
        .receiveFromDevice [100] { payload := .object (some (.string [115])) } 5,
        .removeClient [98]] :=
  packets_routed 120000 _ (by simp [Along, Unique, step, GatewayRouter.client?, GatewayRouter.addClient])

end HelixKit.Backend
