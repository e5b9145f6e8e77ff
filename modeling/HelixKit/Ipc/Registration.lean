/-
Purpose: The commands that the IPC server pushes to a client while the client
  registers: what is on the wire, what the client takes for the reply to its
  registration, and what reaches its channel.
Trusted boundary: none
Main exports: commands_delivered
-/
import HelixKit.Lib.Runs
import Mathlib.Data.List.Nodup
import Mathlib.Data.List.Perm.Basic

namespace HelixKit.Ipc.Registration

open HelixKit.Runs
open scoped List

/-! ### The link -/

/-- A line from the server: the reply to the registration, that to a later request, the
notification of a call of `NotifyService`, or what is left of a line whose beginning
was read before, which is no JSON. -/
inductive Line where
  | reply
  | response
  | command (call : Nat)
  | fragment
deriving Repr, DecidableEq

/-- The capacity of the channel `notifications`. -/
def notificationRoom : Nat := 256

/-- A connection of a client that has just written its register request, and the server's
side of it.  `services` says that `NotifyService` finds the connection.  The channel may
still hold notifications from an earlier connection (`none`). -/
structure Link where
  up : Bool := true
  services : Bool := false
  replied : Bool := false
  registered : Bool := false
  calls : Nat := 0
  notifying : List Nat := []
  returned : List Nat := []
  wire : List Line := []
  taken : Option Line := none
  notifications : List (Option Nat) := []
  consumed : List (Option Nat) := []
  dropped : List Nat := []
deriving Repr, DecidableEq

inductive Op where
  | registerConn
  /-- `handleRequest` writes the reply to the registration. -/
  | okResponse
  /-- `NotifyService` looks the service up. -/
  | lookup
  /-- `NotifyService` writes its line and returns true. -/
  | writeJSON (call : Nat)
  /-- The reply to a request that the client made once it was registered. -/
  | respond
  /-- The socket read that ends `ReadBytes` brings this many lines after the first, and
  perhaps a part of one more. -/
  | register (lines : Nat) (torn : Bool)
  | scan
  | consume
  /-- The connection fails. -/
  | fail
  | dropConn
deriving Repr, DecidableEq

/-- A line is written if the connection is up; errors are not looked at. -/
def Link.write (link : Link) (line : Line) : Link :=
  { link with wire := if link.up then link.wire ++ [line] else link.wire }

/-- What the first reader has not read of the wire, after the reader is gone. -/
def leave (lines : Nat) (torn : Bool) (wire : List Line) : List Line :=
  match torn, wire.drop lines with
  | true, _ :: rest => .fragment :: rest
  | _, rest => rest

/-- `readLoop` takes a line: an id makes it a response, a method a notification. -/
def Link.take (link : Link) (line : Line) : Link :=
  match line with
  | .command call =>
    if link.notifications.length < notificationRoom then
      { link with notifications := link.notifications ++ [some call] }
    else { link with dropped := link.dropped ++ [call] }
  | .reply | .response | .fragment => link

def step (link : Link) : Op → Link
  | .registerConn => { link with services := true }
  | .okResponse =>
    if link.services && !link.replied then { link.write .reply with replied := true } else link
  | .lookup =>
    if link.services then
      { link with notifying := link.notifying ++ [link.calls], calls := link.calls + 1 }
    else link
  | .writeJSON call =>
    if call ∈ link.notifying then
      { link.write (.command call) with
        notifying := link.notifying.erase call
        returned := link.returned ++ [call] }
    else link
  | .respond => if link.replied && link.registered then link.write .response else link
  | .register lines torn =>
    -- A notification unmarshals as a `Response` without an error.
    if link.registered then link
    else
      match link.wire with
      | [] => link
      | line :: rest =>
        { link with
          registered := true
          taken := some line
          wire := leave lines torn rest }
  | .scan =>
    if link.registered then
      match link.wire with
      | [] => link
      | line :: rest => { link with wire := rest }.take line
    else link
  | .consume =>
    match link.notifications with
    | [] => link
    | notification :: rest =>
      { link with notifications := rest, consumed := link.consumed ++ [notification] }
  | .fail => { link with up := false }
  | .dropConn => if link.up then link else { link with services := false }

/-- A client that dials while its channel holds so many earlier notifications. -/
def start (earlier : Nat) : Link :=
  { notifications := List.replicate earlier none }

/-- The command of a line. -/
def Line.call? : Line → Option Nat
  | .command call => some call
  | .reply | .response | .fragment => none

/-- The commands that have reached the client's channel. -/
def Link.reached (link : Link) : List Nat :=
  (link.consumed ++ link.notifications).filterMap id

/-- The commands on the wire, in the channel, and dropped since the channel was full. -/
def Link.commands (link : Link) : List Nat :=
  link.wire.filterMap Line.call? ++ (link.reached ++ link.dropped)

/-- No command is written before the reply to the registration, and the read that brings
the reply brings nothing after it. -/
def Timely (link : Link) : Op → Prop
  | .writeJSON call => call ∈ link.notifying → link.up = true → link.replied = true
  | .register lines torn => link.registered = false →
      link.wire.length ≤ 1 ∨ (lines = 0 ∧ torn = false)
  | _ => True

/-- Each command that `NotifyService` has returned true for is once on the wire, in the
channel or dropped, none is ever there twice, the wire can be read to its end, and no
command was taken for the reply. -/
structure Delivered (link : Link) : Prop where
  once : link.up = true → ∀ call ∈ link.returned, link.commands.count call = 1
  single : ∀ call, link.commands.count call ≤ 1
  drains : link.registered = true →
    (run step link (List.replicate link.wire.length .scan)).wire = []
  unmistaken : ∀ call, link.taken ≠ some (.command call)

/-! ### The invariant -/

/-- Each command that was written is in one place. -/
structure Accounts (link : Link) : Prop where
  numbered : ∀ call ∈ link.notifying ++ link.returned, call < link.calls
  apart : (link.notifying ++ link.returned).Nodup
  known : ∀ call ∈ link.commands, call ∈ link.returned
  single : link.commands.Nodup
  kept : link.up = true → ∀ call ∈ link.returned, call ∈ link.commands

/-- The reply is the first line of the wire. -/
structure Ordered (link : Link) : Prop where
  head : link.registered = false → link.wire = [] ∨ ∃ rest, link.wire = .reply :: rest
  waits : link.replied = false → link.wire = [] ∧ link.registered = false
  replied : link.up = true → link.replied = true → link.registered = false → link.wire ≠ []
  taken : ∀ line, link.taken = some line → line = .reply

theorem write_wire_up (link : Link) (line : Line) (up : link.up = true) :
    (link.write line).wire = link.wire ++ [line] :=
  if_pos up

theorem write_wire_down (link : Link) (line : Line) (down : link.up = false) :
    (link.write line).wire = link.wire :=
  if_neg (by simp [down])

/-- A command that is written is one more. -/
theorem commands_write (link : Link) (line : Line) (up : link.up = true) :
    List.Perm (link.write line).commands (link.commands ++ line.call?.toList) := by
  have last : [line].filterMap Line.call? = line.call?.toList := by
    cases line with
    | command | reply | response | fragment => rfl
  rw [Link.commands, write_wire_up _ _ up, List.filterMap_append, last, Link.commands,
    List.append_assoc, List.append_assoc]
  exact List.Perm.append_left _ List.perm_append_comm

theorem commands_write_none (link : Link) (line : Line) (none : line.call? = none) :
    List.Perm (link.write line).commands link.commands := by
  cases running : link.up with
  | true => simpa [none] using commands_write link line running
  | false =>
    rw [Link.commands, write_wire_down _ _ running]
    exact List.Perm.refl _

theorem leave_nil (lines : Nat) (torn : Bool) : leave lines torn [] = [] := by
  cases torn with
  | true | false => simp [leave]

/-- A line that is taken changes what the client holds. -/
theorem take_eq (link : Link) (line : Line) :
    link.take line = { link with
      notifications := (link.take line).notifications
      dropped := (link.take line).dropped } := by
  cases line with
  | command call =>
    simp only [Link.take]
    split
    · rfl
    · rfl
  | reply | response | fragment => rfl

/-- Taking a line from the wire loses no command. -/
theorem commands_take (link : Link) (line : Line) (rest : List Line) (wire : link.wire = line :: rest) :
    List.Perm ({ link with wire := rest }.take line).commands link.commands := by
  cases line with
  | command call =>
    have before : link.commands =
        call :: (rest.filterMap Line.call? ++ (link.reached ++ link.dropped)) := by
      simp [Link.commands, wire, Line.call?]
    rw [before]
    simp only [Link.take]
    split
    · have after : Link.commands { link with
          wire := rest, notifications := link.notifications ++ [some call] } =
          rest.filterMap Line.call? ++ (link.reached ++ call :: link.dropped) := by
        simp [Link.commands, Link.reached]
      rw [after, ← List.append_assoc, ← List.append_assoc]
      exact List.perm_middle
    · have after : Link.commands { link with wire := rest, dropped := link.dropped ++ [call] } =
          rest.filterMap Line.call? ++ (link.reached ++ link.dropped) ++ [call] := by
        simp [Link.commands, Link.reached]
      rw [after]
      exact List.perm_append_singleton ..
  | reply | response | fragment =>
    rw [Link.commands.eq_1 link, wire]
    exact List.Perm.refl _

variable {link : Link}

namespace Accounts

theorem start (earlier : Nat) : Accounts (start earlier) := by
  have empty : (Registration.start earlier).commands = [] := by
    simp [Registration.start, Link.commands, Link.reached]
  constructor
  · simp [Registration.start]
  · simp [Registration.start]
  · simp [empty]
  · simp [empty]
  · simp [Registration.start]

/-- The commands only move. -/
theorem same (inv : Accounts link) (next : Link) (calls : next.calls = link.calls)
    (notifying : next.notifying = link.notifying) (returned : next.returned = link.returned)
    (commands : List.Perm next.commands link.commands) (up : next.up = true → link.up = true) :
    Accounts next where
  numbered := by rw [notifying, returned, calls]; exact inv.numbered
  apart := by rw [notifying, returned]; exact inv.apart
  known := by
    intro call member
    rw [returned]
    exact inv.known call (commands.mem_iff.1 member)
  single := commands.nodup_iff.2 inv.single
  kept := by
    intro running call member
    rw [returned] at member
    exact commands.mem_iff.2 (inv.kept (up running) call member)

theorem lookup (inv : Accounts link) : Accounts (step link .lookup) := by
  simp only [step]
  split
  · have fresh : link.calls ∉ link.notifying ++ link.returned := by
      intro member
      exact absurd (inv.numbered _ member) (Nat.lt_irrefl _)
    have moved : List.Perm (link.notifying ++ [link.calls] ++ link.returned)
        (link.calls :: (link.notifying ++ link.returned)) := by
      rw [List.append_assoc]
      exact List.perm_middle
    exact {
      numbered := by
        intro call member
        rcases List.mem_cons.1 (moved.mem_iff.1 member) with new | old
        · exact new ▸ Nat.lt_succ_self _
        · exact Nat.lt_succ_of_lt (inv.numbered call old)
      apart := moved.nodup_iff.2 (List.nodup_cons.2 ⟨fresh, inv.apart⟩)
      known := inv.known
      single := inv.single
      kept := inv.kept }
  · exact inv

theorem writeJSON (inv : Accounts link) (call : Nat) : Accounts (step link (.writeJSON call)) := by
  simp only [step]
  split
  next looking =>
    have moved : List.Perm (link.notifying.erase call ++ (link.returned ++ [call]))
        (link.notifying ++ link.returned) := by
      calc link.notifying.erase call ++ (link.returned ++ [call])
          _ ~ link.notifying.erase call ++ (call :: link.returned) :=
            List.Perm.append_left _ (List.perm_append_singleton ..)
          _ ~ call :: link.notifying.erase call ++ link.returned := List.perm_middle
          _ ~ link.notifying ++ link.returned :=
            List.Perm.append_right _ (List.perm_cons_erase looking).symm
    have new : call ∉ link.commands := by
      intro old
      exact List.disjoint_of_nodup_append inv.apart looking (inv.known call old)
    have numbered : ∀ other ∈ link.notifying.erase call ++ (link.returned ++ [call]),
        other < link.calls := fun other member => inv.numbered other (moved.mem_iff.1 member)
    have apart := moved.nodup_iff.2 inv.apart
    cases running : link.up with
    | true =>
      have more := commands_write link (.command call) running
      exact {
        numbered := numbered
        apart := apart
        known := by
          intro other member
          rcases List.mem_append.1 (more.mem_iff.1 member) with old | own
          · exact List.mem_append_left _ (inv.known other old)
          · exact List.mem_append_right _ own
        single := more.nodup_iff.2 (List.nodup_append_comm.1 (List.nodup_cons.2 ⟨new, inv.single⟩))
        kept := by
          intro _ other member
          apply more.mem_iff.2
          rcases List.mem_append.1 member with old | own
          · exact List.mem_append_left _ (inv.kept running other old)
          · exact List.mem_append_right _ own }
    | false =>
      have same : (link.write (.command call)).commands = link.commands := by
        rw [Link.commands, write_wire_down _ _ running]
        rfl
      exact {
        numbered := numbered
        apart := apart
        known := by
          intro other member
          exact List.mem_append_left _ (inv.known other (same ▸ member))
        single := by
          have single := inv.single
          rw [← same] at single
          exact single
        kept := by
          intro up
          rw [show link.up = true from up] at running
          cases running }
  · exact inv

theorem register (inv : Accounts link) (order : Ordered link) (lines : Nat) (torn : Bool)
    (timely : Timely link (.register lines torn)) :
    Accounts (Registration.step link (.register lines torn)) := by
  simp only [Registration.step]
  split
  · exact inv
  next unregistered =>
    split
    · exact inv
    next line rest wire =>
      have first : link.registered = false := by simpa using unregistered
      have reply : line = .reply := by
        rcases order.head first with empty | ⟨_, head⟩
        · simp [wire] at empty
        · exact (List.cons.inj (wire.symm.trans head)).1
      refine inv.same _ rfl rfl rfl ?_ id
      have rest_eq : leave lines torn rest = rest := by
        rcases timely first with alone | ⟨rfl, rfl⟩
        · have empty : rest = [] := by simpa [wire] using alone
          rw [empty]
          exact leave_nil lines torn
        · rfl
      rw [rest_eq, reply, Link.commands.eq_1 link, wire, reply]
      exact List.Perm.refl _

/-- Every step under the condition keeps every command in one place. -/
theorem step (inv : Accounts link) (order : Ordered link) (op : Op) (timely : Timely link op) :
    Accounts (step link op) := by
  cases op with
  | registerConn => exact inv.same _ rfl rfl rfl (List.Perm.refl _) id
  | okResponse =>
    simp only [Registration.step]
    split
    · exact inv.same _ rfl rfl rfl (commands_write_none link .reply rfl) id
    · exact inv
  | lookup => exact inv.lookup
  | writeJSON call => exact inv.writeJSON call
  | respond =>
    simp only [Registration.step]
    split
    · exact inv.same _ rfl rfl rfl (commands_write_none link .response rfl) id
    · exact inv
  | register lines torn => exact inv.register order lines torn timely
  | scan =>
    simp only [Registration.step]
    split
    · split
      · exact inv
      next line rest wire =>
        have same := commands_take link line rest wire
        rw [take_eq] at same ⊢
        exact inv.same _ rfl rfl rfl same id
    · exact inv
  | consume =>
    simp only [Registration.step]
    split
    · exact inv
    next notification rest full =>
      refine inv.same _ rfl rfl rfl ?_ id
      cases notification with
      | none | some => simp [Link.commands, Link.reached, full]
  | fail =>
    refine inv.same _ rfl rfl rfl (List.Perm.refl _) fun up => ?_
    cases up
  | dropConn =>
    simp only [Registration.step]
    split
    · exact inv
    · exact inv.same _ rfl rfl rfl (List.Perm.refl _) id

end Accounts

namespace Ordered

theorem start (earlier : Nat) : Ordered (start earlier) where
  head := by simp [Registration.start]
  waits := by simp [Registration.start]
  replied := by simp [Registration.start]
  taken := by simp [Registration.start]

/-- A line after the reply leaves the reply in front. -/
theorem write (order : Ordered link) (line : Line) (replied : link.up = true → link.replied = true) :
    Ordered (link.write line) := by
  cases running : link.up with
  | true =>
    have behind : link.registered = false → ∃ rest, link.wire = .reply :: rest := by
      intro waiting
      rcases order.head waiting with empty | front
      · exact absurd empty (order.replied running (replied running) waiting)
      · exact front
    constructor
    · intro waiting
      obtain ⟨rest, front⟩ := behind waiting
      exact .inr ⟨rest ++ [line], by rw [write_wire_up _ _ running, front]; rfl⟩
    · intro unreplied
      rw [show link.replied = false from unreplied] at replied
      cases replied running
    · intro _ _ _
      simp [write_wire_up _ _ running]
    · exact order.taken
  | false =>
    have same : link.write line = link := by
      rw [Link.write, if_neg (by simp [running])]
    rw [same]
    exact order

/-- The client has read the first line. -/
theorem reading {next : Link} (replied : next.replied = link.replied)
    (registered : next.registered = true) (already : link.replied = true)
    (taken : ∀ line, next.taken = some line → line = .reply) : Ordered next where
  head := by simp [registered]
  waits := by simp [replied, already]
  replied := by simp [registered]
  taken := taken

/-- Every step under the condition leaves the reply in front. -/
theorem step (order : Ordered link) (op : Op) (timely : Timely link op) :
    Ordered (step link op) := by
  cases op with
  | registerConn => exact { order with }
  | okResponse =>
    simp only [Registration.step]
    split
    next first =>
      have unreplied : link.replied = false := by
        simp only [Bool.and_eq_true, Bool.not_eq_true'] at first
        exact first.2
      obtain ⟨empty, waiting⟩ := order.waits unreplied
      constructor
      · intro _
        cases running : link.up with
        | true => exact .inr ⟨[], by simp [write_wire_up _ _ running, empty]⟩
        | false => exact .inl (by simp [write_wire_down _ _ running, empty])
      · simp
      · intro up _ _
        have last : (link.write .reply).wire = link.wire ++ [.reply] := write_wire_up link .reply up
        simp [last]
      · exact order.taken
    · exact order
  | lookup =>
    simp only [Registration.step]
    split
    · exact { order with }
    · exact order
  | writeJSON call =>
    simp only [Registration.step]
    split
    next looking => exact { order.write (.command call) (timely looking) with }
    · exact order
  | respond =>
    simp only [Registration.step]
    split
    next both =>
      rw [Bool.and_eq_true] at both
      exact order.write .response fun _ => both.1
    · exact order
  | register lines torn =>
    simp only [Registration.step]
    split
    · exact order
    next unregistered =>
      split
      · exact order
      next line rest wire =>
        have waiting : link.registered = false := by simpa using unregistered
        have already : link.replied = true := by
          by_contra unreplied
          have empty := (order.waits (by simpa using unreplied)).1
          simp [wire] at empty
        have reply : line = .reply := by
          rcases order.head waiting with empty | ⟨_, head⟩
          · simp [wire] at empty
          · exact (List.cons.inj (wire.symm.trans head)).1
        refine reading rfl rfl already fun other taken => ?_
        exact (Option.some.inj taken).symm.trans reply
  | scan =>
    simp only [Registration.step]
    split
    next registered =>
      split
      · exact order
      next line rest wire =>
        rw [take_eq]
        have already : link.replied = true := by
          by_contra waiting
          have unregistered := (order.waits (by simpa using waiting)).2
          simp [registered] at unregistered
        exact reading rfl registered already order.taken
    · exact order
  | consume | dropConn =>
    simp only [Registration.step]
    split
    · exact order
    · exact { order with }
  | fail =>
    exact { order with
      replied := by
        intro up
        cases up }

end Ordered

/-- Reading the lines that are left empties the wire. -/
theorem scan_drains (link : Link) (registered : link.registered = true) :
    (run step link (List.replicate link.wire.length .scan)).wire = [] := by
  generalize lines : link.wire.length = n
  induction n generalizing link with
  | zero => exact List.length_eq_zero_iff.1 lines
  | succ n ih =>
    cases wire : link.wire with
    | nil => simp [wire] at lines
    | cons line rest =>
      have taken : step link .scan = { link with wire := rest }.take line := by
        simp [step, registered, wire]
      rw [List.replicate_succ, run_cons]
      apply ih (step link .scan)
      · rw [taken, take_eq]
        exact registered
      · rw [taken, take_eq]
        simpa [wire] using lines

/-- Commands reach the client once, and none is taken for the reply. -/
theorem commands_delivered (earlier : Nat) (ops : List Op)
    (along : Along step Timely (start earlier) ops) : Delivered (run step (start earlier) ops) := by
  obtain ⟨accounts, order⟩ := along.invariant (fun link => Accounts link ∧ Ordered link)
    (fun link op inv timely => ⟨inv.1.step inv.2 op timely, inv.2.step op timely⟩)
    ⟨Accounts.start earlier, Ordered.start earlier⟩
  exact {
    once := fun up call returned =>
      List.count_eq_one_of_mem accounts.single (accounts.kept up call returned)
    single := fun call => List.nodup_iff_count_le_one.1 accounts.single call
    drains := scan_drains _
    unmistaken := by
      intro call taken
      cases order.taken _ taken }

theorem commands_delivered_one :
    Delivered (run step (start 0)
      [.registerConn, .okResponse, .register 0 false, .lookup, .writeJSON 0, .scan]) :=
  commands_delivered 0 _ (by simp [Along, Timely, step, start, Link.write])

/-- A command that is written before the reply is taken for it; one that comes with the
reply is read by the first reader and lost. -/
theorem early_command_lost :
    ¬ Delivered (run step (start 0)
        [.registerConn, .lookup, .writeJSON 0, .okResponse, .register 0 false]) ∧
      ¬ Delivered (run step (start 0)
        [.registerConn, .okResponse, .lookup, .writeJSON 0, .register 1 false]) := by
  constructor
  · intro delivered
    exact delivered.unmistaken 0 (by decide)
  · intro delivered
    have once := delivered.once (by decide) 0 (by decide)
    revert once
    decide

end HelixKit.Ipc.Registration
