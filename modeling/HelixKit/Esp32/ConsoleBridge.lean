/-
Purpose: The console bridge (`embedded/esp32/core/apps/console_bridge/console_bridge.c`): the UART
  driver and the read task under configure commands, and the data-plane session under open and
  close commands, whose callbacks come from the websocket tasks.
Trusted boundary: the read task sees within the 400 ms of `stop_bridge` that it is to end; closing a
  session waits for its websocket task
Main exports: sessions_sound
-/
import HelixKit.Lib.Runs

namespace HelixKit.Esp32.ConsoleBridge

open HelixKit.Runs

/-! ### The UART -/

inductive EspErr where
  | invalidState
  | noMem
  | other (code : Int)
deriving DecidableEq

/-- The settings, whether the read task is to go on, whether there is one, and the UARTs that have a
driver of the bridge. -/
structure Bridge where
  uart : Int := 1
  baud : Int := 115200
  tx_pin : Int := 17
  rx_pin : Int := 16
  running : Bool := false
  task : Bool := false
  drivers : List Int := []
deriving DecidableEq

/-- What the calls of one start come to: that of `uart_driver_install` where the UART has no driver
yet and where it has one, and those that follow. -/
structure Outcomes where
  install : Option Int := none
  installed : EspErr := .other (-1)
  param_config : Option EspErr := none
  set_pin : Option EspErr := none
  task_create : Bool := true

def uart_driver_install (outcomes : Outcomes) (b : Bridge) : Bridge × Option EspErr :=
  if b.uart ∈ b.drivers then (b, some outcomes.installed)
  else
    match outcomes.install with
    | none => ({ b with drivers := b.uart :: b.drivers }, none)
    | some code => (b, some (.other code))

def start_bridge (outcomes : Outcomes) (b : Bridge) : Bridge × Option EspErr :=
  let (b, err) := uart_driver_install outcomes b
  if err ≠ none ∧ err ≠ some .invalidState then (b, err)
  else if outcomes.param_config ≠ none then (b, outcomes.param_config)
  else if outcomes.set_pin ≠ none then (b, outcomes.set_pin)
  else if outcomes.task_create then ({ b with running := true, task := true }, none)
  else ({ b with running := false, task := false }, some .noMem)

def stop_bridge (b : Bridge) : Bridge :=
  if !b.running ∧ !b.task then b
  else { b with running := false, task := false, drivers := b.drivers.filter (· ≠ b.uart) }

/-- The numbers of a configure command. -/
structure Configure where
  uart : Option Int := none
  baud : Option Int := none
  tx_pin : Option Int := none
  rx_pin : Option Int := none

def Configure.apply (command : Configure) (b : Bridge) : Bridge :=
  { b with
    uart := command.uart.getD b.uart
    baud := command.baud.getD b.baud
    tx_pin := command.tx_pin.getD b.tx_pin
    rx_pin := command.rx_pin.getD b.rx_pin }

/-- The bridge after the command, and the error that is answered. -/
def handle_configure (command : Configure) (outcomes : Outcomes) (b : Bridge) :
    Bridge × Option EspErr :=
  start_bridge outcomes (stop_bridge (command.apply b))

def step (b : Bridge) (op : Configure × Outcomes) : Bridge := (handle_configure op.1 op.2 b).1

/-- One driver is left at most, of the UART that is set, which the read task has if there is one. -/
structure Agrees (b : Bridge) : Prop where
  own : ∀ port ∈ b.drivers, port = b.uart
  single : b.drivers.length ≤ 1
  driven : b.task = true → b.uart ∈ b.drivers

/-- The command sets the UART that has the driver, if one has it. -/
def KeepsUart (b : Bridge) (op : Configure × Outcomes) : Prop :=
  ∀ port ∈ b.drivers, op.1.uart.getD b.uart = port

variable {b : Bridge}

theorem Agrees.installed (agrees : Agrees b) (outcomes : Outcomes) :
    Agrees (uart_driver_install outcomes b).1 ∧
      ((uart_driver_install outcomes b).2 = none ∨
        (uart_driver_install outcomes b).2 = some .invalidState →
          b.uart ∈ (uart_driver_install outcomes b).1.drivers) := by
  unfold uart_driver_install
  split
  next inside => exact ⟨agrees, fun _ => inside⟩
  next absent =>
    have empty : b.drivers = [] := List.eq_nil_iff_forall_not_mem.mpr fun port member =>
      absent (agrees.own port member ▸ member)
    split
    · exact ⟨⟨by simp [empty], by simp [empty], by simp⟩, by simp⟩
    · exact ⟨agrees, by simp⟩

theorem uart_driver_install_uart (outcomes : Outcomes) (b : Bridge) :
    (uart_driver_install outcomes b).1.uart = b.uart := by
  unfold uart_driver_install
  split
  · rfl
  · split <;> rfl

theorem Agrees.start (agrees : Agrees b) (outcomes : Outcomes) :
    Agrees (start_bridge outcomes b).1 := by
  obtain ⟨after, driven⟩ := agrees.installed outcomes
  have uart := uart_driver_install_uart outcomes b
  unfold start_bridge
  generalize uart_driver_install outcomes b = result at after driven uart
  obtain ⟨b', err⟩ := result
  dsimp only at after driven uart ⊢
  split
  · exact after
  next fine =>
    have accepted : err = none ∨ err = some .invalidState := by
      by_contra other
      exact fine (not_or.mp other)
    repeat' split
    · exact after
    · exact after
    · exact ⟨after.own, after.single, fun _ => uart ▸ driven accepted⟩
    · exact ⟨after.own, after.single, fun running => nomatch running⟩

theorem Agrees.stop (agrees : Agrees b) : Agrees (stop_bridge b) := by
  unfold stop_bridge
  split
  · exact agrees
  · refine ⟨fun port member => agrees.own port (List.mem_filter.mp member).1, ?_, by simp⟩
    exact Nat.le_trans (List.length_filter_le _ _) agrees.single

theorem Agrees.apply {op : Configure × Outcomes} (agrees : Agrees b)
    (keeps : KeepsUart b op) : Agrees (op.1.apply b) where
  own port member := (keeps port member).symm
  single := agrees.single
  driven task := by
    have driver := agrees.driven task
    have same := keeps _ driver
    rw [Configure.apply, same]
    exact driver

/-- The driver, the read task and the setting agree after every command of a run in which no command
moves the bridge to another UART while one has its driver. -/
theorem drivers_agree {boot : Outcomes} {ops : List (Configure × Outcomes)}
    (keeps : Along step KeepsUart (start_bridge boot {}).1 ops) :
    Agrees (run step (start_bridge boot {}).1 ops) := by
  have first : Agrees (start_bridge boot {}).1 :=
    Agrees.start ⟨by simp, Nat.zero_le _, by simp⟩ boot
  exact keeps.invariant Agrees (fun _ op agrees now => ((agrees.apply now).stop).start op.2) first

theorem drivers_agree_faster :
    Agrees (run step (start_bridge {} {}).1 [({ baud := some 9600 }, {})]) :=
  drivers_agree ⟨by simp [KeepsUart, start_bridge, uart_driver_install], trivial⟩

/-- The driver of the UART that was set before stays. -/
theorem moved_bridge_leaves_driver :
    ¬ ∀ (boot : Outcomes) (ops : List (Configure × Outcomes)),
      Agrees (run step (start_bridge boot {}).1 ops) := by
  intro agrees
  have single := (agrees {} [({ uart := some 2 }, {})]).single
  revert single
  decide

/-! ### Data-plane sessions -/

variable {Id : Type}

/-- A stream, by the session it is of and its number there. -/
structure StreamRef where
  session : Nat
  stream : Nat
deriving DecidableEq

/-- What a command goes on with once the session before is closed: nothing, or a new session, if it
can be started. -/
inductive Next (Id : Type) where
  | nothing
  | start (session_id : Id)

/-- The session that is open, by its number, and its id, the stream of the bridge, the sessions that
have a websocket task, the number of the next session, and the command at work. -/
structure DataPlane (Id : Type) where
  session : Option (Nat × Id) := none
  stream : Option StreamRef := none
  tasks : List Nat := []
  started : Nat := 0
  closing : Option (Option Nat × Next Id) := none

inductive Event (Id : Type) where
  /-- `handle_open` of a valid request, up to where the old session is detached. -/
  | handle_open (session_id : Id)
  | handle_close (session_id : Id)
  /-- The old session is closed; `starts`: a session was started, if one was asked for. -/
  | closed (starts : Bool)
  | on_open (stream : StreamRef)
  | on_stream_close (stream : StreamRef)
  | on_session_close (session : Nat)
  /-- Data of the UART, which is written to the stream. -/
  | data

/-- `close_active_session`, up to where the lock is given back. -/
def DataPlane.detach (s : DataPlane Id) (next : Next Id) : DataPlane Id :=
  { s with session := none, stream := none, closing := some (s.session.map Prod.fst, next) }

def DataPlane.step (s : DataPlane Id) : Event Id → DataPlane Id
  | .handle_open session_id =>
    if s.closing.isSome then s else s.detach (.start session_id)
  | .handle_close _ => if s.closing.isSome then s else s.detach .nothing
  | .closed starts =>
    match s.closing with
    | none => s
    | some (old, next) =>
      let s := { s with tasks := s.tasks.filter (some · ≠ old), closing := none }
      match next, starts with
      | .start session_id, true =>
        { s with
          session := some (s.started, session_id)
          tasks := s.started :: s.tasks
          started := s.started + 1 }
      | _, _ => s
  | .on_open stream => if stream.session ∈ s.tasks then { s with stream := some stream } else s
  | .on_stream_close stream =>
    if stream.session ∈ s.tasks ∧ s.stream = some stream then { s with stream := none } else s
  | .on_session_close session => if session ∈ s.tasks then { s with stream := none } else s
  | .data => s

/-- A close leaves an open session that it does not name, and data is written to a stream of the
open session. -/
def Sound (s : DataPlane Id) : Event Id → Prop
  | .handle_close session_id => ∀ session ∈ s.session, session.2 ≠ session_id →
      (s.step (.handle_close session_id)).session = some session
  | .data => ∀ stream ∈ s.stream, ∃ id, s.session = some (stream.session, id)
  | _ => True

/-- No close names another session than the open one, and no session opens a stream once it is
detached. -/
def Orderly (s : DataPlane Id) : Event Id → Prop
  | .handle_close session_id =>
    s.closing = none → ∀ session ∈ s.session, session.2 = session_id
  | .on_open stream => stream.session ∈ s.tasks → ∃ id, s.session = some (stream.session, id)
  | _ => True

/-- The stream is of the open session, and no session is open while a command is at work. -/
structure Inv (s : DataPlane Id) : Prop where
  stream : ∀ stream ∈ s.stream, ∃ id, s.session = some (stream.session, id)
  detached : s.closing ≠ none → s.session = none

variable {s : DataPlane Id}

theorem Inv.detach (next : Next Id) : Inv (s.detach next) :=
  ⟨by simp [DataPlane.detach], fun _ => rfl⟩

theorem Inv.withoutStream (inv : Inv s) : Inv { s with stream := none } :=
  ⟨by simp, inv.detached⟩

theorem Inv.closed (inv : Inv s) (starts : Bool) :
    Inv (s.step (.closed starts)) := by
  simp only [DataPlane.step]
  split
  · exact inv
  next old next working =>
    have session : s.session = none := inv.detached (by simp [working])
    have stream : s.stream = none := by
      refine Option.eq_none_iff_forall_not_mem.mpr fun stream member => ?_
      obtain ⟨id, open_⟩ := inv.stream stream member
      rw [session] at open_
      cases open_
    split
    · exact ⟨by simp [stream], by simp⟩
    · exact ⟨by simp [stream], by simp⟩

theorem Inv.step {s : DataPlane Id} (inv : Inv s) (event : Event Id) (orderly : Orderly s event) :
    Inv (s.step event) := by
  cases event with
  | handle_open session_id | handle_close session_id =>
    simp only [DataPlane.step]
    split
    · exact inv
    · exact .detach _
  | closed starts => exact inv.closed starts
  | on_open stream =>
    simp only [DataPlane.step]
    split
    next working =>
      refine ⟨fun other member => ?_, inv.detached⟩
      obtain rfl := Option.mem_some.mp member
      exact orderly working
    · exact inv
  | on_stream_close stream | on_session_close session =>
    simp only [DataPlane.step]
    split
    · exact inv.withoutStream
    · exact inv
  | data => exact inv

/-- No close tears down a session that it does not name, and data goes to the open session only, in
every run in which closes name the open session and no detached session opens a stream. -/
theorem sessions_sound {events : List (Event Id)}
    (orderly : Along DataPlane.step Orderly {} events) :
    Along DataPlane.step Sound {} events := by
  refine orderly.always Inv (fun _ event inv now => inv.step event now) ?_
    ⟨by simp, fun _ => rfl⟩
  intro s event inv now
  cases event with
  | handle_close session_id =>
    intro session member other
    by_cases idle : s.closing = none
    · exact absurd (now idle session member) other
    · rw [inv.detached idle] at member
      cases member
  | data => exact inv.stream
  | _ => trivial

theorem sessions_sound_reopened :
    Along DataPlane.step Sound {} [.handle_open "a", .closed true, .on_open ⟨0, 2⟩, .data,
      .handle_close "a", .closed true, .handle_open "b", .closed true] :=
  sessions_sound (by simp [Along, Orderly, DataPlane.step, DataPlane.detach])

/-- A close of the session before comes after the open of the next. -/
theorem late_close_tears_down :
    ¬ ∀ events : List (Event String), Along DataPlane.step Sound {} events := by
  intro sound
  have late := sound [.handle_open "a", .closed true, .handle_open "b", .closed true,
    .handle_close "a"]
  simp [Along, Sound, DataPlane.step, DataPlane.detach] at late

end HelixKit.Esp32.ConsoleBridge
