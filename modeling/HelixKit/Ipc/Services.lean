/-
Purpose: The map of the IPC server from service names to connections: what registers, supersedes and
  drops a connection, and what a notification goes by.
Trusted boundary: what the publisher answers is a parameter
Main exports: services_consistent
-/
import HelixKit.Lib.Runs
import Mathlib.Logic.Function.Basic

namespace HelixKit.Ipc.Services

open HelixKit.Runs

/-! ## The server -/

/-- A connection, with the names that it has registered.  `closed` says that a newer registration
has closed it, `leaving` that its handler has, and `dropped` that the handler is through. -/
structure Conn where
  name : String := ""
  closed : Bool := false
  leaving : Bool := false
  dropped : Bool := false
  registered : List String := []
deriving Repr, DecidableEq

/-- The server, with the connections by the order in which they were accepted. -/
structure Server where
  services : String → Option Nat := fun _ => none
  accepted : Nat := 0
  conns : Nat → Conn := fun _ => {}

/-- The method of a request with what is read of its params; none, where they cannot be read. -/
inductive Method where
  | registerService (service : Option String)
  | respond (method : Option String)
  | emitEvent (type : Option String)
  | unknown
deriving Repr, DecidableEq

structure Request where
  id : String
  method : Method
deriving Repr, DecidableEq

structure Response where
  id : String := ""
  error : Option (Int × String) := none
deriving Repr, DecidableEq

def okResponse (id : String) : Response := { id := id }

def errResponse (id : String) (code : Int) (msg : String) : Response :=
  { id := id, error := some (code, msg) }

/-- What the publisher does: there may be none, and it may fail. -/
inductive Publisher where
  | missing
  | fails (err : String)
  | publishes
deriving Repr, DecidableEq

variable (s : Server)

/-- `prev.c.Close()` of the connection that has the name. -/
def supersede (name : String) (cn : Nat) : Nat → Conn :=
  match s.services name with
  | none => s.conns
  | some prev =>
    if prev = cn then s.conns
    else Function.update s.conns prev { s.conns prev with closed := true }

def registerConn (name : String) (cn : Nat) : Server :=
  let conns := supersede s name cn
  { s with
    conns := Function.update conns cn
      { conns cn with name := name, registered := name :: (conns cn).registered }
    services := Function.update s.services name (some cn) }

def dropConn (cn : Nat) : Server :=
  let dropped := { s with conns := Function.update s.conns cn { s.conns cn with dropped := true } }
  if (s.conns cn).name = "" then dropped
  else if s.services (s.conns cn).name = some cn then
    { dropped with services := Function.update s.services (s.conns cn).name none }
  else dropped

def published (publisher : Publisher) (id : String) : Response :=
  match publisher with
  | .missing => errResponse id (-3) "no transport"
  | .fails err => errResponse id (-3) err
  | .publishes => okResponse id

/-- A param that is there and not empty. -/
def given (param : Option String) : Option String := param.filter (· ≠ "")

/-- `handleRequest`, with the response that is written. -/
def handleRequest (publisher : Publisher) (cn : Nat) (req : Request) : Server × Response :=
  match req.method with
  | .registerService service =>
    match given service with
    | none => (s, errResponse req.id (-1) "invalid register params")
    | some name => (registerConn s name cn, okResponse req.id)
  | .respond method =>
    match given method with
    | none => (s, errResponse req.id (-1) "invalid respond params")
    | some _ => (s, published publisher req.id)
  | .emitEvent type =>
    match given type with
    | none => (s, errResponse req.id (-1) "invalid emit params")
    | some _ => (s, published publisher req.id)
  | .unknown => (s, errResponse req.id (-2) "unknown method")

/-- A line of a connection; none is no JSON. -/
def handleLine (publisher : Publisher) (cn : Nat) (line : Option Request) : Server × Response :=
  match line with
  | none => (s, { error := some (-1, "invalid json") })
  | some req => handleRequest s publisher cn req

/-- `NotifyService`, by the answer that it gives. -/
def notifyService (service : String) : Bool := (s.services service).isSome

/-! ## Runs -/

inductive Op where
  | accept
  /-- The handler of the connection takes a line. -/
  | line (publisher : Publisher) (cn : Nat) (line : Option Request)
  /-- The handler is done with its lines and closes the connection. -/
  | close (cn : Nat)
  | dropConn (cn : Nat)
  | notify (service : String)
deriving Repr, DecidableEq

/-- The handler of the connection still reads lines. -/
def Server.Handles (cn : Nat) : Prop :=
  cn < s.accepted ∧ (s.conns cn).leaving = false ∧ (s.conns cn).dropped = false

instance (cn : Nat) : Decidable (s.Handles cn) := inferInstanceAs (Decidable (_ ∧ _ ∧ _))

def step (s : Server) : Op → Server
  | .accept => { s with accepted := s.accepted + 1 }
  | .line publisher cn line =>
    if s.Handles cn then (handleLine s publisher cn line).1 else s
  | .close cn =>
    if s.Handles cn then
      { s with conns := Function.update s.conns cn { s.conns cn with leaving := true } }
    else s
  | .dropConn cn =>
    if (s.conns cn).leaving ∧ ¬ (s.conns cn).dropped then Services.dropConn s cn else s
  | .notify _ => s

def start : Server := {}

/-- The connection was accepted, no newer registration has closed it, and it is not dropped. -/
structure Server.Live (cn : Nat) : Prop where
  accepted : cn < s.accepted
  open_ : (s.conns cn).closed = false
  handled : (s.conns cn).dropped = false

/-- The map has no connection that is dropped, and a notification goes to a live connection that
has registered the name. -/
structure Consistent : Prop where
  dropped : ∀ cn, (s.conns cn).dropped = true → ∀ name, s.services name ≠ some cn
  notified : ∀ name, notifyService s name = true → ∃ cn, s.services name = some cn ∧
    s.Live cn ∧ name ∈ (s.conns cn).registered

/-- The connection is dropped, or another one is registered under the name. -/
def Op.takes (name : String) (cn : Nat) : Op → Prop
  | .line _ other (some ⟨_, .registerService (some service)⟩) => service = name ∧ other ≠ cn
  | .dropConn other => other = cn
  | _ => False

/-- A connection keeps its name until it is dropped or another one is registered under it. -/
def Keeps (ops : List Op) : Prop :=
  ∀ before after name cn, ops = before ++ after →
    (run step start before).services name = some cn →
    (∀ op ∈ after, ¬ op.takes name cn) → (run step start ops).services name = some cn

/-- A connection that registers is not closed by a newer registration, and no other name maps to
it. -/
def Orderly (s : Server) : Op → Prop
  | .line _ cn (some ⟨_, .registerService (some name)⟩) => name ≠ "" →
      (s.conns cn).closed = false ∧ ∀ other ≠ name, s.services other ≠ some cn
  | _ => True

/-! ## The map -/

variable {s : Server}

section

variable (name : String) (cn : Nat)

theorem registerConn_services :
    (registerConn s name cn).services = Function.update s.services name (some cn) := rfl

theorem registerConn_conns :
    (registerConn s name cn).conns = Function.update (supersede s name cn) cn
      { supersede s name cn cn with
        name := name
        registered := name :: (supersede s name cn cn).registered } := rfl

theorem dropConn_conns :
    (dropConn s cn).conns = Function.update s.conns cn { s.conns cn with dropped := true } := by
  unfold dropConn
  dsimp only
  split
  · rfl
  split
  · rfl
  · rfl

theorem dropConn_accepted : (dropConn s cn).accepted = s.accepted := by
  unfold dropConn
  dsimp only
  split
  · rfl
  split
  · rfl
  · rfl

theorem dropConn_services :
    (dropConn s cn).services =
      if (s.conns cn).name ≠ "" ∧ s.services (s.conns cn).name = some cn then
        Function.update s.services (s.conns cn).name none
      else s.services := by
  unfold dropConn
  by_cases unnamed : (s.conns cn).name = ""
  · simp [unnamed]
  by_cases own : s.services (s.conns cn).name = some cn
  · simp [unnamed, own]
  · simp [unnamed, own]

end

/-- What is known of a connection that a name maps to. -/
structure Entry (s : Server) (name : String) (cn : Nat) : Prop where
  named : (s.conns cn).name = name
  nonempty : name ≠ ""
  live : s.Live cn
  registered : name ∈ (s.conns cn).registered

def Inv (s : Server) : Prop := ∀ name cn, s.services name = some cn → Entry s name cn

theorem inv_start : Inv start := by
  intro name cn held
  cases held

/-- What the entry looks at is as it was. -/
theorem Entry.congr {name : String} {cn : Nat} (entry : Entry s name cn) {after : Server}
    (accepted : s.accepted ≤ after.accepted) (named : (after.conns cn).name = (s.conns cn).name)
    (closed : (after.conns cn).closed = (s.conns cn).closed)
    (dropped : (after.conns cn).dropped = (s.conns cn).dropped)
    (registered : (after.conns cn).registered = (s.conns cn).registered) :
    Entry after name cn where
  named := named.trans entry.named
  nonempty := entry.nonempty
  live := ⟨Nat.lt_of_lt_of_le entry.live.accepted accepted, closed.trans entry.live.open_,
    dropped.trans entry.live.handled⟩
  registered := registered ▸ entry.registered

theorem Entry.same {name : String} {cn : Nat} (entry : Entry s name cn) {after : Server}
    (accepted : s.accepted ≤ after.accepted) (same : after.conns cn = s.conns cn) :
    Entry after name cn :=
  entry.congr accepted (by rw [same]) (by rw [same]) (by rw [same]) (by rw [same])

/-- Only another connection that has the name is closed. -/
theorem supersede_apart {name : String} {cn other : Nat}
    (apart : s.services name ≠ some other ∨ other = cn) :
    supersede s name cn other = s.conns other := by
  unfold supersede
  cases held : s.services name with
  | none => rfl
  | some prev =>
    by_cases own : prev = cn
    · simp only [own, if_true]
    · have differs : other ≠ prev := by
        rintro rfl
        rcases apart with free | same
        · exact free held
        · exact own same
      simp only [own, if_false]
      exact Function.update_of_ne differs _ _

theorem Inv.registerConn (inv : Inv s) {name : String} {cn : Nat} (some_ : name ≠ "")
    (handles : s.Handles cn) (open_ : (s.conns cn).closed = false)
    (free : ∀ other ≠ name, s.services other ≠ some cn) : Inv (registerConn s name cn) := by
  have own : supersede s name cn cn = s.conns cn := supersede_apart (.inr rfl)
  intro other held_by held
  rw [registerConn_services] at held
  by_cases same : other = name
  · subst same
    rw [Function.update_self] at held
    cases held
    have conn : (Services.registerConn s other cn).conns cn =
        { s.conns cn with name := other, registered := other :: (s.conns cn).registered } := by
      rw [registerConn_conns, Function.update_self, own]
    have live : (Services.registerConn s other cn).Live cn :=
      ⟨handles.1, by rw [conn]; exact open_, by rw [conn]; exact handles.2.2⟩
    exact ⟨by rw [conn], some_, live, by rw [conn]; exact List.mem_cons_self⟩
  · rw [Function.update_of_ne same] at held
    have entry := inv other held_by held
    have apart : held_by ≠ cn := by
      rintro rfl
      exact free other same held
    have kept : supersede s name cn held_by = s.conns held_by := by
      refine supersede_apart (.inl fun prev => ?_)
      exact same (entry.named.symm.trans (inv name held_by prev).named)
    refine entry.same (Nat.le_refl _) ?_
    rw [registerConn_conns, Function.update_of_ne apart, kept]

theorem Inv.dropConn (inv : Inv s) (cn : Nat) : Inv (dropConn s cn) := by
  intro name held_by held
  rw [dropConn_services] at held
  have before : s.services name = some held_by := by
    split at held
    · by_cases same : name = (s.conns cn).name
      · rw [same, Function.update_self] at held
        cases held
      · rwa [Function.update_of_ne same] at held
    · exact held
  have entry := inv name held_by before
  have apart : held_by ≠ cn := by
    rintro rfl
    rw [entry.named, if_pos ⟨entry.nonempty, before⟩, Function.update_self] at held
    cases held
  refine entry.same (Nat.le_of_eq (dropConn_accepted cn).symm) ?_
  rw [dropConn_conns, Function.update_of_ne apart]

/-- A line changes the map only when it registers a name. -/
theorem handleLine_cases (publisher : Publisher) (cn : Nat) (line : Option Request) :
    (handleLine s publisher cn line).1 = s ∨
      ∃ id name, line = some ⟨id, .registerService (some name)⟩ ∧ name ≠ "" ∧
        (handleLine s publisher cn line).1 = registerConn s name cn := by
  cases line with
  | none => exact .inl rfl
  | some req =>
    obtain ⟨id, method⟩ := req
    cases method with
    | unknown => exact .inl rfl
    | respond method =>
      refine .inl ?_
      cases there : given method with
      | none | some name => simp [handleLine, handleRequest, there]
    | emitEvent type =>
      refine .inl ?_
      cases there : given type with
      | none | some name => simp [handleLine, handleRequest, there]
    | registerService service =>
      cases there : given service with
      | none => exact .inl (by simp [handleLine, handleRequest, there])
      | some name =>
        obtain ⟨rfl, some_⟩ := Option.filter_eq_some_iff.mp there
        exact .inr ⟨id, name, rfl, by simpa using some_,
          by simp [handleLine, handleRequest, there]⟩

theorem Inv.step (inv : Inv s) (op : Op) (orderly : Orderly s op) : Inv (step s op) := by
  cases op with
  | accept =>
    intro name cn held
    exact (inv name cn held).same (Nat.le_succ _) rfl
  | line publisher cn line =>
    simp only [Services.step]
    split
    next handles =>
      rcases handleLine_cases publisher cn line with same | ⟨id, name, rfl, some_, registers⟩
      · rw [same]
        exact inv
      · rw [registers]
        obtain ⟨open_, free⟩ := orderly some_
        exact inv.registerConn some_ handles open_ free
    · exact inv
  | close cn =>
    simp only [Services.step]
    split
    · intro name held_by held
      have entry := inv name held_by held
      by_cases same : held_by = cn
      · subst same
        refine entry.congr (Nat.le_refl _) ?_ ?_ ?_ ?_
        all_goals simp only [Function.update_self]
      · exact entry.same (Nat.le_refl _) (Function.update_of_ne same _ _)
    · exact inv
  | dropConn cn =>
    simp only [Services.step]
    split
    · exact inv.dropConn cn
    · exact inv
  | notify service => exact inv

/-! ## What a connection keeps -/

theorem step_keeps {name : String} {cn : Nat} (held : s.services name = some cn) {op : Op}
    (kept : ¬ op.takes name cn) : (step s op).services name = some cn := by
  cases op with
  | accept => exact held
  | line publisher other line =>
    simp only [step]
    split
    · rcases handleLine_cases publisher other line with same | ⟨id, service, rfl, -, registers⟩
      · rw [same]
        exact held
      · rw [registers, registerConn_services]
        by_cases same : name = service
        · subst same
          have own : other = cn := by
            by_contra apart
            exact kept ⟨rfl, apart⟩
          rw [Function.update_self, own]
        · rw [Function.update_of_ne same]
          exact held
    · exact held
  | close other =>
    simp only [step]
    split
    · exact held
    · exact held
  | dropConn other =>
    simp only [step]
    split
    · have apart : cn ≠ other := fun same => kept same.symm
      rw [dropConn_services]
      split
      next own =>
        have differs : name ≠ (s.conns other).name := by
          rintro rfl
          exact apart (Option.some.inj (held.symm.trans own.2))
        rw [Function.update_of_ne differs]
        exact held
      · exact held
    · exact held
  | notify service => exact held

theorem keeps (ops : List Op) : Keeps ops := by
  rintro before after name cn rfl held kept
  rw [run_append]
  generalize run step start before = s at held
  induction after generalizing s with
  | nil => exact held
  | cons op rest ih =>
    exact ih (fun other member => kept other (List.mem_cons_of_mem op member)) _
      (step_keeps held (kept op List.mem_cons_self))

/-! ## Runs -/

theorem Inv.consistent (inv : Inv s) : Consistent s where
  dropped cn gone name held := by
    have handled := (inv name cn held).live.handled
    rw [gone] at handled
    cases handled
  notified name reports := by
    obtain ⟨cn, held⟩ := Option.isSome_iff_exists.mp reports
    have entry := inv name cn held
    exact ⟨cn, held, entry.live, entry.registered⟩

/-- In a run whose registrations are orderly, the map is consistent, and every connection keeps its
names. -/
theorem services_consistent {ops : List Op} (orderly : Along step Orderly start ops) :
    Consistent (run step start ops) ∧ Keeps ops :=
  ⟨(orderly.invariant Inv (fun _ op inv now => inv.step op now) inv_start).consistent, keeps ops⟩

def registers (cn : Nat) (name : String) : Op :=
  .line .missing cn (some ⟨"1", .registerService (some name)⟩)

/-- A connection supersedes another one under the same name, and the one that is dropped does not
take the name with it. -/
theorem consistent_superseded :
    Consistent (run step start [.accept, registers 0 "terminal", .accept, registers 1 "terminal",
      .close 0, .dropConn 0, .notify "terminal"]) ∧
    Keeps [.accept, registers 0 "terminal", .accept, registers 1 "terminal",
      .close 0, .dropConn 0, .notify "terminal"] := by
  refine services_consistent ⟨trivial, fun _ => ⟨rfl, fun other _ held => ?_⟩, trivial,
    fun _ => ⟨by decide, fun other apart held => ?_⟩, trivial, trivial, trivial, trivial⟩
  · cases held
  · have free : (step (step (step start .accept) (registers 0 "terminal")) .accept).services other =
        none := Function.update_of_ne apart _ _
    cases free.symm.trans held

/-- A connection that registered two names leaves the first of them behind. -/
theorem second_name_left :
    (run step start [.accept, registers 0 "files", registers 0 "terminal", .close 0,
      .dropConn 0]).services "files" = some 0 ∧
    ¬ Consistent (run step start [.accept, registers 0 "files", registers 0 "terminal", .close 0,
      .dropConn 0]) := by
  have left : (run step start [.accept, registers 0 "files", registers 0 "terminal", .close 0,
      .dropConn 0]).services "files" = some 0 := by decide
  have gone : ((run step start [.accept, registers 0 "files", registers 0 "terminal", .close 0,
      .dropConn 0]).conns 0).dropped = true := by decide
  exact ⟨left, fun consistent => consistent.dropped 0 gone "files" left⟩

end HelixKit.Ipc.Services
