/-
Purpose: What an IPC client still holds after `Close`, whatever its run loop was doing.
Trusted boundary: none
Main exports: closed_loop_stops
-/
import HelixKit.Ipc.RunLoop

namespace HelixKit.Ipc.RunLoop

open HelixKit.Runs

variable {c : Client}

/-- The connection that the loop is about. -/
def Loop.socket : Loop → Option Nat
  | .registering nc | .registered nc | .reading nc | .disconnected nc _ | .closing nc _ => some nc
  | .top | .dialing | .waiting | .stopped => none

/-- The connection that is published. -/
def Loop.published : Loop → Option Nat
  | .reading nc | .disconnected nc _ => some nc
  | _ => none

/-- The connection of an attempt that has not failed. -/
def Loop.attempted : Loop → Option Nat
  | .registering nc | .registered nc => some nc
  | _ => none

/-- The loop is over, and helixd has dropped what it reads the end of. -/
structure AtRest (c : Client) : Prop where
  stopped : c.loop = .stopped
  dropped : ∀ nc, c.isOpen nc = false → c.served nc ≠ .registered

/-- The client is not connected: requests fail, no connection is open but one that the loop has not
published, and in the end none is open or registered. -/
structure Released (c : Client) : Prop where
  requests : ∀ answered, request c answered = false
  unpublished : ∀ nc, c.isOpen nc = true → c.loop.socket = some nc ∧ c.loop.published = none
  rest : AtRest c → ∀ nc, c.isOpen nc = false ∧ c.served nc ≠ .registered

/-- No attempt gets to publish its connection once the client is closed. -/
def Timely (c : Client) : Op → Prop
  | .publish => ∀ nc, c.loop = .registered nc → c.closed = false
  | _ => True

/-- Which connection is published and which are open, by where the loop is. -/
structure Sockets (c : Client) : Prop where
  conn : c.conn = c.loop.published
  only : ∀ nc, c.isOpen nc = true → c.loop.socket = some nc
  attempt : ∀ nc, c.loop.attempted = some nc → c.isOpen nc = true

theorem sockets_start : Sockets start where
  conn := rfl
  only := by simp [start]
  attempt := by simp [start, Loop.attempted]

/-- The loop goes on with the connection it has. -/
theorem Sockets.move (sockets : Sockets c) {after : Client} (isOpen : after.isOpen = c.isOpen)
    (conn : after.conn = after.loop.published)
    (socket : ∀ nc, c.loop.socket = some nc → after.loop.socket = some nc)
    (attempted : ∀ nc, after.loop.attempted = some nc → c.loop.attempted = some nc) :
    Sockets after where
  conn := conn
  only := fun nc open_ => socket nc (sockets.only nc (isOpen ▸ open_))
  attempt := fun nc here => by
    rw [isOpen]
    exact sockets.attempt nc (attempted nc here)

/-- The loop closes its connection. -/
theorem Sockets.release (sockets : Sockets c) {nc : Nat} (socket : c.loop.socket = some nc)
    {after : Client} (isOpen : after.isOpen = Function.update c.isOpen nc false)
    (conn : after.conn = none) (published : after.loop.published = none)
    (attempted : after.loop.attempted = none) : Sockets after where
  conn := conn.trans published.symm
  only := fun other open_ => by
    rw [isOpen] at open_
    by_cases same : other = nc
    · rw [same, Function.update_self] at open_
      cases open_
    · rw [Function.update_of_ne same] at open_
      have own := (sockets.only other open_).symm.trans socket
      exact absurd (Option.some.inj own) same
  attempt := fun other here => by
    rw [attempted] at here
    cases here

theorem Client.Close_cases (c : Client) :
    c.Close = c ∨ (c.closed = false ∧
      ((c.conn = none ∧ c.Close = { c with closed := true }) ∨
        ∃ nc, c.conn = some nc ∧ c.Close = { c.closeSocket nc with closed := true })) := by
  unfold Client.Close
  cases closed : c.closed with
  | true => exact .inl rfl
  | false =>
    refine .inr ⟨rfl, ?_⟩
    cases conn : c.conn with
    | none => exact .inl ⟨rfl, rfl⟩
    | some nc => exact .inr ⟨nc, rfl, rfl⟩

theorem Sockets.step (sockets : Sockets c) (op : Op) : Sockets (step c op) := by
  cases op with
  | close =>
    simp only [RunLoop.step]
    rcases c.Close_cases with same | ⟨-, ⟨-, closes⟩ | ⟨nc, conn, closes⟩⟩
    · rw [same]
      exact sockets
    · rw [closes]
      exact ⟨sockets.conn, sockets.only, sockets.attempt⟩
    · rw [closes]
      have published : c.loop.published = some nc := sockets.conn.symm.trans conn
      refine ⟨sockets.conn, fun other open_ => ?_, fun other here => ?_⟩
      · by_cases same : other = nc
        · simp [Client.closeSocket, same] at open_
        · simp only [Client.closeSocket, Function.update_of_ne same] at open_
          exact sockets.only other open_
      · simp only [Client.closeSocket] at here
        cases loop : c.loop with
        | reading | disconnected =>
          rw [loop] at here
          cases here
        | _ =>
          rw [loop] at published
          cases published
  | check =>
    cases loop : c.loop with
    | top =>
      have conn := sockets.conn
      rw [loop] at conn
      simp only [RunLoop.step, loop]
      cases c.closed with
      | true | false =>
        exact sockets.move rfl conn (by simp [loop, Loop.socket]) (by simp [Loop.attempted])
    | _ => simpa only [RunLoop.step, loop] using sockets
  | dial ok =>
    cases loop : c.loop with
    | dialing =>
      have conn := sockets.conn
      rw [loop] at conn
      simp only [RunLoop.step, loop]
      cases ok with
      | true =>
        refine ⟨conn, fun nc open_ => ?_, fun nc here => ?_⟩
        · simp only [if_true] at open_ ⊢
          by_cases same : nc = c.dialed
          · rw [same]
            rfl
          · rw [Function.update_of_ne same] at open_
            have before := sockets.only nc open_
            rw [loop] at before
            cases before
        · simp only [if_true, Loop.attempted, Option.some.injEq] at here ⊢
          rw [← here, Function.update_self]
      | false =>
        exact sockets.move rfl conn (by simp [loop, Loop.socket])
          (by simp [Loop.attempted, Client.returned])
    | _ => simpa only [RunLoop.step, loop] using sockets
  | register ok =>
    cases loop : c.loop with
    | registering nc =>
      have conn := sockets.conn
      rw [loop] at conn
      simp only [RunLoop.step, loop]
      cases ok with
      | true =>
        exact sockets.move rfl conn (by simp [loop, Loop.socket])
          (by simp [loop, Loop.attempted])
      | false =>
        have socket : c.loop.socket = some nc := by rw [loop]; rfl
        exact sockets.release socket rfl conn rfl rfl
    | _ => simpa only [RunLoop.step, loop] using sockets
  | publish =>
    cases loop : c.loop with
    | registered nc =>
      simp only [RunLoop.step, loop]
      exact sockets.move rfl rfl (by simp [loop, Loop.socket]) (by simp [Loop.attempted])
    | _ => simpa only [RunLoop.step, loop] using sockets
  | hangUp scannerErr =>
    cases loop : c.loop with
    | reading nc =>
      have conn := sockets.conn
      rw [loop] at conn
      simp only [RunLoop.step, loop]
      exact sockets.move rfl conn (by simp [loop, Loop.socket]) (by simp [Loop.attempted])
    | _ => simpa only [RunLoop.step, loop] using sockets
  | clear =>
    cases loop : c.loop with
    | disconnected nc err =>
      simp only [RunLoop.step, loop]
      exact sockets.move rfl rfl (by simp [loop, Loop.socket]) (by simp [Loop.attempted])
    | _ => simpa only [RunLoop.step, loop] using sockets
  | closeConn =>
    cases loop : c.loop with
    | closing nc err =>
      have conn := sockets.conn
      rw [loop] at conn
      have socket : c.loop.socket = some nc := by rw [loop]; rfl
      simp only [RunLoop.step, loop]
      cases err with
      | none | some text => exact sockets.release socket rfl conn rfl rfl
    | _ => simpa only [RunLoop.step, loop] using sockets
  | wait timer =>
    cases loop : c.loop with
    | waiting =>
      have conn := sockets.conn
      rw [loop] at conn
      simp only [RunLoop.step, loop]
      cases timer with
      | true =>
        exact sockets.move rfl conn (by simp [loop, Loop.socket]) (by simp [Loop.attempted])
      | false =>
        cases c.closed with
        | true =>
          exact sockets.move rfl conn (by simp [loop, Loop.socket])
            (by simp [Loop.attempted])
        | false => exact sockets
    | _ => simpa only [RunLoop.step, loop] using sockets
  | serve nc =>
    simp only [RunLoop.step]
    split
    · exact ⟨sockets.conn, sockets.only, sockets.attempt⟩
    · exact sockets
  | drop nc => exact ⟨sockets.conn, sockets.only, sockets.attempt⟩

/-- Nothing is connected once the client is closed. -/
def Shut (c : Client) : Prop := c.closed = true → ∀ nc, c.conn = some nc → c.isOpen nc = false

/-- A step that opens and publishes nothing. -/
theorem Shut.of_fewer (shut : Shut c) {after : Client} (closed : after.closed = c.closed)
    (conn : ∀ nc, after.conn = some nc → c.conn = some nc)
    (isOpen : ∀ nc, c.conn = some nc → c.isOpen nc = false → after.isOpen nc = false) :
    Shut after := by
  intro now nc there
  have before := conn nc there
  exact isOpen nc before (shut (closed ▸ now) nc before)

theorem Shut.step (shut : Shut c) (sockets : Sockets c) (op : Op) (timely : Timely c op) :
    Shut (step c op) := by
  have same : Shut c → ∀ {after : Client}, after.closed = c.closed → after.conn = c.conn →
      after.isOpen = c.isOpen → Shut after := by
    intro shut after closed conn isOpen
    exact shut.of_fewer closed (fun nc there => conn ▸ there) fun nc _ shut_ => isOpen ▸ shut_
  have released : ∀ {nc : Nat} {after : Client}, after.closed = c.closed → after.conn = c.conn →
      after.isOpen = Function.update c.isOpen nc false → Shut after := by
    intro nc after closed conn isOpen
    refine shut.of_fewer closed (fun other there => conn ▸ there) fun other _ off => ?_
    rw [isOpen]
    by_cases own : other = nc
    · rw [own, Function.update_self]
    · rwa [Function.update_of_ne own]
  cases op with
  | close =>
    simp only [RunLoop.step]
    rcases c.Close_cases with unchanged | ⟨-, ⟨conn, closes⟩ | ⟨nc, conn, closes⟩⟩
    · rw [unchanged]
      exact shut
    · rw [closes]
      intro _ nc there
      rw [conn] at there
      cases there
    · rw [closes]
      intro _ other there
      have own : nc = other := Option.some.inj (conn.symm.trans there)
      rw [← own]
      exact Function.update_self _ _ _
  | check | hangUp scannerErr | serve nc =>
    simp only [RunLoop.step]
    split
    · exact same shut rfl rfl rfl
    · exact shut
  | dial ok =>
    simp only [RunLoop.step]
    split
    next loop =>
      have conn := sockets.conn
      rw [loop] at conn
      cases ok with
      | true =>
        intro _ nc there
        cases conn.symm.trans there
      | false => exact same shut rfl rfl rfl
    · exact shut
  | register ok =>
    simp only [RunLoop.step]
    split
    · cases ok with
      | true => exact same shut rfl rfl rfl
      | false => exact released rfl rfl rfl
    · exact shut
  | publish =>
    simp only [RunLoop.step]
    split
    next nc loop =>
      intro closed
      rw [timely nc loop] at closed
      cases closed
    · exact shut
  | clear =>
    simp only [RunLoop.step]
    split
    · intro _ nc there
      cases there
    · exact shut
  | closeConn =>
    simp only [RunLoop.step]
    split
    next nc err loop =>
      cases err with
      | none => exact released rfl rfl rfl
      | some text => exact released rfl rfl rfl
    · exact shut
  | wait timer =>
    simp only [RunLoop.step]
    split
    · split
      · exact same shut rfl rfl rfl
      split
      · exact same shut rfl rfl rfl
      · exact shut
    · exact shut
  | drop nc => exact same shut rfl rfl rfl

theorem Sockets.released (sockets : Sockets c) (shut : Shut c) (closed : c.closed = true) :
    Released c := by
  have unpublished : ∀ nc, c.isOpen nc = true →
      c.loop.socket = some nc ∧ c.loop.published = none := by
    intro nc open_
    have socket := sockets.only nc open_
    refine ⟨socket, ?_⟩
    cases published : c.loop.published with
    | none => rfl
    | some other =>
      have both : c.loop.socket = some other := by
        cases loop : c.loop with
        | reading | disconnected =>
          rw [loop] at published
          exact published
        | _ =>
          rw [loop] at published
          cases published
      have own : other = nc := Option.some.inj (both.symm.trans socket)
      have off := shut closed other (sockets.conn.trans published)
      rw [own, open_] at off
      cases off
  refine ⟨fun answered => ?_, unpublished, fun atRest nc => ?_⟩
  · unfold request
    cases conn : c.conn with
    | none => rfl
    | some nc =>
      simp only
      rw [shut closed nc conn, Bool.false_and]
  · have off : c.isOpen nc = false := by
      cases open_ : c.isOpen nc with
      | false => rfl
      | true =>
        have socket := (unpublished nc open_).1
        rw [atRest.stopped] at socket
        cases socket
    exact ⟨off, atRest.dropped nc off⟩

theorem sockets_run (ops : List Op) : Sockets (run step start ops) :=
  run_invariant Sockets (fun _ op sockets => sockets.step op) sockets_start

/-- In every state after `Close` the client is released, exactly when no attempt gets to publish its
connection after `Close`. -/
theorem released_iff (ops : List Op) :
    (∀ before after, ops = before ++ after → (run step start before).closed = true →
      Released (run step start before)) ↔ Along step Timely start ops := by
  constructor
  · intro released
    refine along_iff_prefix.mpr fun before op after shape => ?_
    cases op with
    | publish =>
      intro nc loop
      cases closed : (run step start before).closed with
      | false => rfl
      | true =>
        have open_ := (sockets_run before).attempt nc (by rw [loop]; rfl)
        have next : run step start (before ++ [.publish]) =
            { run step start before with conn := some nc, loop := .reading nc } := by
          rw [run_append, run_cons, run_nil, step, loop]
        have now := released (before ++ [.publish]) after (by rw [shape]; simp) (by
          rw [next]
          exact closed)
        have answers := now.requests true
        rw [next] at answers
        simp only [request, open_, Bool.and_true] at answers
        cases answers
    | _ => trivial
  · rintro timely before after rfl closed
    have along := (along_append.mp timely).1
    have invariant := along.invariant (fun c => Sockets c ∧ Shut c)
      (fun _ op both now => ⟨both.1.step op, both.2.step both.1 op now⟩)
      ⟨sockets_start, fun closed => by cases closed⟩
    exact invariant.1.released invariant.2 closed

/-- How far a loop that publishes nothing has to go. -/
def Loop.weight : Loop → Nat
  | .stopped | .registered _ => 0
  | .top => 1
  | .waiting => 2
  | .registering _ | .closing _ _ => 3
  | .dialing | .disconnected _ _ => 4
  | .reading _ => 5

theorem Loop.weight_le (loop : Loop) : loop.weight ≤ 5 := by
  cases loop <;> simp [Loop.weight]

theorem step_closed (closed : c.closed = true) (op : Op) : (step c op).closed = true := by
  cases op with
  | close => simp [step, Client.Close, closed]
  | closeConn =>
    simp only [step]
    split
    next nc err loop =>
      cases err with
      | none => exact closed
      | some text => exact closed
    · exact closed
  | serve nc =>
    simp only [step]
    split
    · exact closed
    · exact closed
  | drop nc => exact closed
  | _ =>
    simp only [step]
    repeat' split
    all_goals exact closed

/-- The loop of a closed client goes on towards its end. -/
theorem step_weight (closed : c.closed = true) (op : Op) (timely : Timely c op)
    (moves : (step c op).loop ≠ c.loop) : (step c op).loop.weight < c.loop.weight := by
  cases op with
  | close => simp [step, Client.Close, closed] at moves
  | drop nc => exact absurd rfl moves
  | serve nc =>
    refine absurd ?_ moves
    simp only [step]
    split <;> rfl
  | publish =>
    cases loop : c.loop with
    | registered nc =>
      rw [timely nc loop] at closed
      cases closed
    | _ => simp [step, loop] at moves
  | check =>
    cases loop : c.loop with
    | top => simp [step, loop, closed, Loop.weight]
    | _ => simp [step, loop] at moves
  | dial ok =>
    cases loop : c.loop with
    | dialing => cases ok <;> simp [step, loop, Client.returned, Loop.weight]
    | _ => simp [step, loop] at moves
  | register ok =>
    cases loop : c.loop with
    | registering nc => cases ok <;> simp [step, loop, Client.returned, Loop.weight]
    | _ => simp [step, loop] at moves
  | hangUp scannerErr =>
    cases loop : c.loop with
    | reading nc => simp [step, loop, Loop.weight]
    | _ => simp [step, loop] at moves
  | clear =>
    cases loop : c.loop with
    | disconnected nc err => simp [step, loop, Loop.weight]
    | _ => simp [step, loop] at moves
  | closeConn =>
    cases loop : c.loop with
    | closing nc err => cases err <;> simp [step, loop, Client.returned, Loop.weight]
    | _ => simp [step, loop] at moves
  | wait timer =>
    cases loop : c.loop with
    | waiting => cases timer <;> simp [step, loop, closed, Loop.weight]
    | _ => simp [step, loop] at moves

/-- `Close` comes while an attempt waits for the reply to its registration. -/
def closedWhileRegistering : List Op :=
  [.check, .dial true, .serve 0, .close, .register true, .publish]

/-- The attempt goes on, and the closed client has its connection and its name, and is answered. -/
theorem closed_client_connects :
    (run step start closedWhileRegistering).closed = true ∧
    (run step start closedWhileRegistering).isOpen 0 = true ∧
    (run step start closedWhileRegistering).served 0 = .registered ∧
    request (run step start closedWhileRegistering) true = true ∧
    ¬ (∀ before after, closedWhileRegistering = before ++ after →
      (run step start before).closed = true → Released (run step start before)) := by
  refine ⟨rfl, rfl, rfl, rfl, fun released => ?_⟩
  have answers := (released _ [] (List.append_nil _).symm rfl).requests true
  cases answers

end HelixKit.Ipc.RunLoop
