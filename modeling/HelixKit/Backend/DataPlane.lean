/-
Purpose: The table of the data plane's sessions, which devices register and clients and the
  port-forward proxy are joined through.
Trusted boundary: none
Main exports: sessions_kept
-/
import HelixKit.Backend.JsText
import HelixKit.Lib.Runs
import Mathlib.Data.List.AList

namespace HelixKit.Backend.DataPlane

open HelixKit.Runs

/-! ## The session of a host name -/

/-- `toLowerCase` on a character of Latin-1. -/
def lowerLatin1 (c : Char) : Char :=
  if 0xC0 ≤ c.toNat ∧ c.toNat ≤ 0xDE ∧ c.toNat ≠ 0xD7 then .ofNat (c.toNat + 0x20) else c.toLower

/-- The first `Host` header with a value. Of a value of blanks one is left, which `trim` takes. -/
def hostHeader : List Char → Option (List Char)
  | [] => none
  | c :: rest =>
    let text := c :: rest
    let value := (text.drop 7).takeWhile fun c => c ≠ '\r' && c ≠ '\n'
    if (text.take 7).map Char.toLower = "\r\nhost:".toList ∧ value ≠ [] then
      some (value.dropWhile fun c => c = ' ' || c = '\t')
    else hostHeader rest

def sessionFromHostHead (head : List Char) : Option String :=
  match hostHeader ('\r' :: '\n' :: head) with
  | none => none
  | some value =>
    let host := (JsText.trim (.ofList value)).toList.map lowerLatin1
    let label := (host.takeWhile (· ≠ ':')).takeWhile (· ≠ '.')
    if label = [] then none else some (.ofList label)

/-! ## The table -/

/-- A connection to the device endpoint. `checking` says that the answer of `isRevoked` has not
come, `registered` that a `HelixStreamSession` was made for it. -/
structure Connection where
  sessionId : Option String
  deviceId : String
  opened : Bool := true
  checking : Bool := false
  registered : Bool := false
deriving Repr, DecidableEq

/-- A `DeviceSession`, with the number of the connection that its stream session is of. -/
structure DeviceSession where
  session : Nat
  deviceId : String
deriving Repr, DecidableEq

/-- A client that has been joined to the session it asked for. -/
structure Join where
  sessionId : String
  device : DeviceSession
deriving Repr, DecidableEq

structure Plane where
  connections : List Connection := []
  sessions : AList fun _ : String => DeviceSession := ∅
  joins : List Join := []

inductive Op where
  /-- A device connects, with the session of its query and the name and the serial number of its
  certificate. -/
  | deviceConnects (sessionId commonName serial : Option String)
  /-- `isRevoked` answers for a connection, or fails. -/
  | isRevoked (connection : Nat) (answer : Option Bool)
  | deviceCloses (connection : Nat)
  | clientConnects (sessionId : Option String)
  /-- The head of a request has reached the port-forward proxy. -/
  | proxyConnects (head : List Char)
deriving Repr, DecidableEq

def Plane.setConnection (s : Plane) (n : Nat) (connection : Connection) : Plane :=
  { s with connections := s.connections.set n connection }

/-- Nothing asks whether the socket is still open, or who holds the session. -/
def Plane.registerDeviceStream (s : Plane) (n : Nat) (connection : Connection)
    (sessionId : String) : Plane :=
  { s.setConnection n { connection with registered := true } with
    sessions := s.sessions.insert sessionId ⟨n, connection.deviceId⟩ }

/-- `session.onClose` -/
def Plane.sessionCloses (s : Plane) (n : Nat) (sessionId : String) : Plane :=
  if (s.sessions.lookup sessionId).map DeviceSession.session = some n then
    { s with sessions := s.sessions.erase sessionId }
  else s

def Plane.join (s : Plane) (sessionId : Option String) : Plane :=
  match sessionId with
  | none => s
  | some id =>
    match s.sessions.lookup id with
    | none => s
    | some device => { s with joins := s.joins ++ [⟨id, device⟩] }

/-- `checks` says whether the data plane was given an `isRevoked`. A step that cannot be taken
changes nothing. -/
def step (checks : Bool) (s : Plane) : Op → Plane
  | .deviceConnects sessionId commonName serial =>
    let connection : Connection := { sessionId, deviceId := commonName.getD "unknown" }
    let n := s.connections.length
    match sessionId with
    | none => { s with connections := s.connections ++ [{ connection with opened := false }] }
    | some id =>
      if checks ∧ serial.isSome then
        { s with connections := s.connections ++ [{ connection with checking := true }] }
      else
        { s with connections := s.connections ++ [connection] }.registerDeviceStream n
          connection id
  | .isRevoked n answer =>
    match s.connections[n]? with
    | none => s
    | some connection =>
      match connection.checking, connection.sessionId, answer with
      | true, some id, some false =>
        s.registerDeviceStream n { connection with checking := false } id
      | true, _, _ => s.setConnection n { connection with checking := false, opened := false }
      | false, _, _ => s
  | .deviceCloses n =>
    match s.connections[n]? with
    | none => s
    | some connection =>
      if connection.opened = false then s
      else
        let closed := s.setConnection n { connection with opened := false }
        match connection.registered, connection.sessionId with
        | true, some id => closed.sessionCloses n id
        | _, _ => closed
  | .clientConnects sessionId => s.join sessionId
  | .proxyConnects head => s.join (sessionFromHostHead head)

/-! ## Other devices -/

def Connection.Live (connection : Connection) : Prop :=
  connection.registered = true ∧ connection.opened = true

/-- A live connection has registered the session for the device. -/
def Plane.Live (s : Plane) (id deviceId : String) : Prop :=
  ∃ connection ∈ s.connections, connection.Live ∧ connection.sessionId = some id ∧
    connection.deviceId = deviceId

/-- The device whose connection a step comes from. -/
def actor (s : Plane) : Op → Option String
  | .deviceConnects _ commonName _ => some (commonName.getD "unknown")
  | .isRevoked n _ | .deviceCloses n => s.connections[n]?.map Connection.deviceId
  | .clientConnects _ | .proxyConnects _ => none

/-- The session that a step registers, and the device. -/
def registers (checks : Bool) (s : Plane) : Op → Option (String × String)
  | .deviceConnects (some id) commonName serial =>
    if checks ∧ serial.isSome then none else some (id, commonName.getD "unknown")
  | .isRevoked n (some false) =>
    match s.connections[n]? with
    | none => none
    | some connection =>
      if connection.checking then connection.sessionId.map (·, connection.deviceId) else none
  | _ => none

/-- The live sessions of other devices stay in the table. -/
def LeavesOthers (checks : Bool) (s : Plane) (op : Op) : Prop :=
  ∀ id device connection, s.sessions.lookup id = some device →
    s.connections[device.session]? = some connection → Connection.Live connection →
    actor s op ≠ some device.deviceId → (step checks s op).sessions.lookup id = some device

/-- A client is joined to the device of every live session of the id it asks for. -/
def JoinsOwn (checks : Bool) (s : Plane) (op : Op) : Prop :=
  ∀ join, (step checks s op).joins = s.joins ++ [join] →
    ∀ deviceId, s.Live join.sessionId deviceId → deviceId = join.device.deviceId

/-- The id that a device registers has no live session of another device. -/
def RegistersOwn (checks : Bool) (s : Plane) (op : Op) : Prop :=
  ∀ id deviceId, registers checks s op = some (id, deviceId) →
    ∀ other, s.Live id other → other = deviceId

/-- The table leads to the connection that registered the session, and to the device of every live
session of the id. -/
structure Inv (s : Plane) : Prop where
  registered : ∀ id device, s.sessions.lookup id = some device →
    ∃ connection, s.connections[device.session]? = some connection ∧
      connection.sessionId = some id ∧ connection.deviceId = device.deviceId
  owned : ∀ id device, s.sessions.lookup id = some device →
    ∀ deviceId, s.Live id deviceId → deviceId = device.deviceId

theorem Inv.start : Inv {} := by
  constructor
  · intro id device found
    simp at found
  · intro id device found
    simp at found

/-! ## What a step keeps -/

variable {s : Plane} {connection : Connection}

theorem Inv.connect (inv : Inv s) (fresh : connection.registered = false) :
    Inv { s with connections := s.connections ++ [connection] } := by
  constructor
  · intro id device found
    obtain ⟨old, here, rest⟩ := inv.registered id device found
    have bound := (List.getElem?_eq_some_iff.mp here).1
    exact ⟨old, by rwa [List.getElem?_append_left bound], rest⟩
  · rintro id device found deviceId ⟨other, member, live, rest⟩
    rcases List.mem_append.mp member with old | new
    · exact inv.owned id device found deviceId ⟨other, old, live, rest⟩
    · rw [List.mem_singleton.mp new, Connection.Live, fresh] at live
      cases live.1

variable {n : Nat} {deviceId : String}

/-- A connection changes, which makes no session live. -/
theorem live_setConnection {old new : Connection} {id : String}
    (here : s.connections[n]? = some old) (session : new.sessionId = old.sessionId)
    (device : new.deviceId = old.deviceId) (quiet : new.Live → old.Live)
    (live : (s.setConnection n new).Live id deviceId) : s.Live id deviceId := by
  obtain ⟨connection, member, alive, rest⟩ := live
  rcases List.mem_or_eq_of_mem_set member with kept | rfl
  · exact ⟨connection, kept, alive, rest⟩
  · rw [session, device] at rest
    exact ⟨old, List.mem_of_getElem? here, quiet alive, rest⟩

theorem registered_setConnection {m : Nat} {old new : Connection}
    {id : String} (here : s.connections[n]? = some old)
    (session : new.sessionId = old.sessionId) (device : new.deviceId = old.deviceId)
    (registered : ∃ connection, s.connections[m]? = some connection ∧
      connection.sessionId = some id ∧ connection.deviceId = deviceId) :
    ∃ connection, (s.setConnection n new).connections[m]? = some connection ∧
      connection.sessionId = some id ∧ connection.deviceId = deviceId := by
  obtain ⟨connection, found, rest⟩ := registered
  have bound := (List.getElem?_eq_some_iff.mp here).1
  by_cases same : n = m
  · subst same
    rw [here, Option.some.injEq] at found
    subst found
    exact ⟨new, List.getElem?_set_self bound, by rwa [session, device]⟩
  · exact ⟨connection, by rwa [Plane.setConnection, List.getElem?_set_ne same], rest⟩

theorem Inv.setConnection (inv : Inv s) {old new : Connection}
    (here : s.connections[n]? = some old) (session : new.sessionId = old.sessionId)
    (device : new.deviceId = old.deviceId) (quiet : new.Live → old.Live) :
    Inv (s.setConnection n new) := by
  constructor
  · intro id entry found
    exact registered_setConnection here session device (inv.registered id entry found)
  · intro id entry found deviceId live
    exact inv.owned id entry found deviceId (live_setConnection here session device quiet live)

theorem Inv.erase (inv : Inv s) (id : String) :
    Inv { s with sessions := s.sessions.erase id } := by
  have left : ∀ other device, (s.sessions.erase id).lookup other = some device →
      s.sessions.lookup other = some device := by
    intro other device found
    by_cases same : other = id
    · subst same
      rw [AList.lookup_erase] at found
      cases found
    · rwa [AList.lookup_erase_ne same] at found
  constructor
  · intro other device found
    exact inv.registered other device (left other device found)
  · intro other device found
    exact inv.owned other device (left other device found)

theorem Inv.sessionCloses (inv : Inv s) (n : Nat) (id : String) :
    Inv (s.sessionCloses n id) := by
  unfold Plane.sessionCloses
  split
  · exact inv.erase id
  · exact inv

theorem Inv.registerDeviceStream (inv : Inv s) {old new : Connection}
    {id : String} (here : s.connections[n]? = some old) (session : new.sessionId = old.sessionId)
    (device : new.deviceId = old.deviceId) (named : old.sessionId = some id)
    (own : ∀ other, s.Live id other → other = old.deviceId) :
    Inv (s.registerDeviceStream n new id) := by
  have bound := (List.getElem?_eq_some_iff.mp here).1
  -- A session that is live now was so before, or is the one that is registered.
  have split : ∀ {other deviceId}, (s.registerDeviceStream n new id).Live other deviceId →
      s.Live other deviceId ∨ other = id ∧ deviceId = old.deviceId := by
    rintro other deviceId ⟨connection, member, live, rest⟩
    rcases List.mem_or_eq_of_mem_set member with kept | rfl
    · exact .inl ⟨connection, kept, live, rest⟩
    · rw [session, device, named, Option.some.injEq] at rest
      exact .inr ⟨rest.1.symm, rest.2.symm⟩
  constructor
  · intro other entry found
    simp only [Plane.registerDeviceStream] at found
    by_cases same : other = id
    · subst same
      rw [AList.lookup_insert, Option.some.injEq] at found
      subst found
      exact ⟨_, List.getElem?_set_self bound, session.trans named, rfl⟩
    · rw [AList.lookup_insert_ne same] at found
      exact registered_setConnection here session device (inv.registered other entry found)
  · intro other entry found deviceId live
    simp only [Plane.registerDeviceStream] at found
    by_cases same : other = id
    · subst same
      rw [AList.lookup_insert, Option.some.injEq] at found
      subst found
      rw [device]
      rcases split live with before | ⟨-, now⟩
      · exact own deviceId before
      · exact now
    · rw [AList.lookup_insert_ne same] at found
      rcases split live with before | ⟨now, -⟩
      · exact inv.owned other entry found deviceId before
      · exact absurd now same

theorem Inv.join (inv : Inv s) (sessionId : Option String) : Inv (s.join sessionId) := by
  unfold Plane.join
  split
  · exact inv
  split
  · exact inv
  · exact ⟨inv.registered, inv.owned⟩

/-- A new connection has no session yet. -/
theorem live_connect (fresh : connection.registered = false) {id : String}
    (live : Plane.Live { s with connections := s.connections ++ [connection] } id deviceId) :
    s.Live id deviceId := by
  obtain ⟨other, member, alive, rest⟩ := live
  rcases List.mem_append.mp member with old | new
  · exact ⟨other, old, alive, rest⟩
  · rw [List.mem_singleton.mp new, Connection.Live, fresh] at alive
    cases alive.1

theorem Inv.step {checks : Bool} {s : Plane} (inv : Inv s) (op : Op)
    (own : RegistersOwn checks s op) : Inv (step checks s op) := by
  cases op with
  | deviceConnects sessionId commonName serial =>
    cases sessionId with
    | none => exact inv.connect rfl
    | some id =>
      simp only [DataPlane.step]
      split
      · exact inv.connect rfl
      next unchecked =>
        have registers : registers checks s (.deviceConnects (some id) commonName serial) =
            some (id, commonName.getD "unknown") := if_neg unchecked
        have last {connection : Connection} :
            (s.connections ++ [connection])[s.connections.length]? = some connection := by simp
        refine (inv.connect rfl).registerDeviceStream last rfl rfl rfl ?_
        intro other live
        exact own id _ registers other (live_connect rfl live)
  | isRevoked n answer =>
    simp only [DataPlane.step]
    split
    · exact inv
    next connection here =>
      split
      next checking named =>
        have registers : registers checks s (.isRevoked n (some false)) =
            some (‹String›, connection.deviceId) := by
          simp only [DataPlane.registers, here, checking, named, ↓reduceIte, Option.map_some]
        exact inv.registerDeviceStream here rfl rfl named fun other live =>
          own _ _ registers other live
      · refine inv.setConnection here rfl rfl ?_
        intro live
        cases live.2
      · exact inv
  | deviceCloses n =>
    simp only [DataPlane.step]
    split
    · exact inv
    rename_i connection here
    split
    · exact inv
    have closed : Inv (s.setConnection n { connection with opened := false }) := by
      refine inv.setConnection here rfl rfl ?_
      intro live
      cases live.2
    split
    · exact closed.sessionCloses n _
    · exact closed
  | clientConnects sessionId => exact inv.join sessionId
  | proxyConnects head => exact inv.join (sessionFromHostHead head)

/-! ## Runs -/

/-- Registering a session that no other device has live leaves the others in the table. -/
theorem Inv.insert_leaves (inv : Inv s) {id : String}
    (own : ∀ other, s.Live id other → other = deviceId) (entry : DeviceSession) {other : String}
    {device : DeviceSession} (found : s.sessions.lookup other = some device)
    (here : s.connections[device.session]? = some connection) (live : connection.Live)
    (foreign : some deviceId ≠ some device.deviceId) :
    (s.sessions.insert id entry).lookup other = some device := by
  by_cases same : other = id
  · subst same
    obtain ⟨_, again, named, owner⟩ := inv.registered other device found
    rw [here, Option.some.injEq] at again
    subst again
    have mine := own device.deviceId ⟨connection, List.mem_of_getElem? here, live, named, owner⟩
    exact absurd (congrArg some mine.symm) foreign
  · rwa [AList.lookup_insert_ne same]

theorem join_sessions (s : Plane) (sessionId : Option String) :
    (s.join sessionId).sessions = s.sessions := by
  unfold Plane.join
  split
  · rfl
  · split <;> rfl

theorem Inv.leavesOthers {checks : Bool} (inv : Inv s) (op : Op)
    (own : RegistersOwn checks s op) : LeavesOthers checks s op := by
  intro other device held found here live foreign
  cases op with
  | deviceConnects sessionId commonName serial =>
    cases sessionId with
    | none => exact found
    | some id =>
      simp only [DataPlane.step]
      split
      · exact found
      next unchecked =>
        have registers : registers checks s (.deviceConnects (some id) commonName serial) =
            some (id, commonName.getD "unknown") := if_neg unchecked
        exact inv.insert_leaves (own id _ registers) _ found here live foreign
  | isRevoked n answer =>
    simp only [DataPlane.step]
    split
    · exact found
    next connection now =>
      split
      next checking named =>
        have registers : registers checks s (.isRevoked n (some false)) =
            some (‹String›, connection.deviceId) := by
          simp only [DataPlane.registers, now, checking, named, ↓reduceIte, Option.map_some]
        have foreign : some connection.deviceId ≠ some device.deviceId := by
          simpa only [actor, now, Option.map_some] using foreign
        exact inv.insert_leaves (own _ _ registers) _ found here live foreign
      · exact found
      · exact found
  | deviceCloses n =>
    simp only [DataPlane.step]
    split
    · exact found
    rename_i connection now
    split
    · exact found
    split
    next id _ _ =>
      simp only [Plane.sessionCloses]
      split
      next mine =>
        by_cases same : other = id
        · subst same
          have number : device.session = n := by
            simpa [Plane.setConnection, found] using mine
          obtain ⟨_, again, -, owner⟩ := inv.registered other device found
          rw [number, now, Option.some.injEq] at again
          subst again
          have ours : actor s (.deviceCloses n) = some device.deviceId := by
            simp only [actor, now, Option.map_some, owner]
          exact absurd ours foreign
        · simpa only [Plane.setConnection, AList.lookup_erase_ne same] using found
      · exact found
    · exact found
  | clientConnects sessionId | proxyConnects head =>
    simpa only [DataPlane.step, join_sessions] using found

theorem Inv.join_own (inv : Inv s) (sessionId : Option String) {join : Join}
    (joined : (s.join sessionId).joins = s.joins ++ [join])
    (live : s.Live join.sessionId deviceId) : deviceId = join.device.deviceId := by
  unfold Plane.join at joined
  split at joined
  · simp at joined
  split at joined
  · simp at joined
  rename_i id _ device found
  have same : (⟨id, device⟩ : Join) = join := by simpa using joined
  subst same
  exact inv.owned id device found deviceId live

/-- Only clients and the proxy are joined. -/
theorem joins_step (checks : Bool) (s : Plane) (op : Op) :
    (step checks s op).joins = s.joins ∨ ∃ sessionId, step checks s op = s.join sessionId := by
  cases op with
  | deviceConnects sessionId commonName serial =>
    left
    cases sessionId with
    | none => rfl
    | some id =>
      simp only [step]
      split <;> rfl
  | isRevoked n answer =>
    left
    simp only [step]
    split
    · rfl
    · split <;> rfl
  | deviceCloses n =>
    left
    simp only [step]
    split
    · rfl
    split
    · rfl
    split
    · simp only [Plane.sessionCloses]
      split <;> rfl
    · rfl
  | clientConnects sessionId => exact .inr ⟨sessionId, rfl⟩
  | proxyConnects head => exact .inr ⟨sessionFromHostHead head, rfl⟩

theorem Inv.joinsOwn {checks : Bool} (inv : Inv s) (op : Op) :
    JoinsOwn checks s op := by
  intro join joined deviceId live
  rcases joins_step checks s op with same | ⟨sessionId, step⟩
  · rw [same] at joined
    simp at joined
  · rw [step] at joined
    exact inv.join_own sessionId joined live

/-- In a run whose registrations meet no live session of another device, the live sessions of a
device are replaced and removed by that device alone, and a client that asks for one is joined to
its device. -/
theorem sessions_kept (checks : Bool) (ops : List Op)
    (own : Along (step checks) (RegistersOwn checks) {} ops) :
    Along (step checks) (fun s op => LeavesOthers checks s op ∧ JoinsOwn checks s op) {} ops :=
  own.always Inv (fun _ op inv own => inv.step op own)
    (fun _ op inv own => ⟨inv.leavesOthers op own, inv.joinsOwn op⟩) .start

theorem sessions_kept_two :
    Along (step false) (fun s op => LeavesOthers false s op ∧ JoinsOwn false s op) {}
      [.deviceConnects (some "s1") (some "d1") none, .deviceConnects (some "s2") (some "d2") none,
        .clientConnects (some "s1"), .deviceCloses 1] := by
  apply sessions_kept
  refine ⟨?_, ?_, ?_, ?_, trivial⟩
  · rintro id deviceId - other ⟨connection, member, -⟩
    cases member
  · rintro id deviceId registers other ⟨connection, member, -, named, -⟩
    cases registers
    obtain rfl := List.mem_singleton.mp member
    exact absurd (Option.some.inj named) (by decide)
  · intro id deviceId registers
    cases registers
  · intro id deviceId registers
    cases registers

/-- A second device takes the session of the first. -/
theorem session_taken :
    ¬Along (step false) (fun s op => LeavesOthers false s op ∧ JoinsOwn false s op) {}
      [.deviceConnects (some "s1") (some "d1") none,
        .deviceConnects (some "s1") (some "d2") none] := by
  rintro ⟨-, ⟨leaves, -⟩, -⟩
  have kept := leaves "s1" ⟨0, "d1"⟩ _ rfl rfl ⟨rfl, rfl⟩ (by decide)
  revert kept
  decide

end HelixKit.Backend.DataPlane
