/-
Purpose: The store-and-forward buffer for outbound events: enqueues and a drain,
  one SQL statement at a time, any of which can fail, with crashes in between.
Trusted boundary: none
-/
import HelixKit.Lib.Runs
import Mathlib.Algebra.BigOperators.Group.List.Basic
import Mathlib.Algebra.GroupWithZero.Nat
import Mathlib.Algebra.Order.BigOperators.Group.List
import Mathlib.Algebra.Order.Group.Nat
import Mathlib.Algebra.Ring.Int.Defs
import Mathlib.Logic.Function.Basic

namespace HelixKit.Helixd

open HelixKit.Runs

/-! ### The table and who works on it -/

/-- A row of `events`.  `readable` says that the payload unmarshals: `enqueue` stores what
`json.Marshal` returned. -/
structure Row where
  id : Nat
  size : Nat
  readable : Bool
deriving Repr, DecidableEq

/-- Where a call of `enqueue` is: before its INSERT, a SUM or a DELETE, after the last
statement, back, or gone in a crash. -/
inductive Phase where
  | inserting
  | summing
  | evicting
  | passing
  | returned (ok : Bool)
  | crashed
deriving Repr, DecidableEq

/-- A call of `enqueue`: `row` is the id that its INSERT was given, `seen` the last id that
was given out when its last statement ran. -/
structure Call where
  size : Nat
  phase : Phase
  row : Option Nat := none
  seen : Nat := 0
deriving Repr, DecidableEq

/-- Where the drain is: before the next row of its batch, before the DELETE of a row that it
has published, or of one that it cannot read. -/
inductive Drain where
  | publishing (batch : List Row)
  | deleting (row : Row) (batch : List Row)
  | dropping (row : Row) (batch : List Row)
deriving Repr, DecidableEq

/-- The table in the order of its ids, which `AUTOINCREMENT` never gives out twice.  Kept
beside it: every call of the publish function with whether it returned nil, and every row
that was evicted, with the ids in the table at that time. -/
structure Spool where
  maxBytes : Int
  events : List Row := []
  lastId : Nat := 0
  calls : Nat → Option Call := fun _ => none
  issued : Nat := 0
  drain : Option Drain := none
  copies : List (Nat × Bool) := []
  evicted : List (Nat × List Nat) := []

inductive Op where
  /-- A call of `enqueue`; the envelope may not marshal. -/
  | enqueue (size : Nat) (marshals : Bool)
  | insert (n : Nat) (ok : Bool)
  | sum (n : Nat) (ok : Bool)
  | evict (n : Nat) (ok : Bool)
  | back (n : Nat)
  /-- The drain's SELECT, which may fail; reading its rows may end after some. -/
  | query (ok : Bool) (rows : Nat)
  | publish (ok : Bool)
  | delete (ok : Bool)
  | finish
  | crash
deriving Repr, DecidableEq

def totalBytes (rows : List Row) : Nat :=
  (rows.map (·.size)).sum

def Spool.setCall (s : Spool) (n : Nat) (call : Call) : Spool :=
  { s with calls := Function.update s.calls n (some call) }

/-- The call, if it is in the phase. -/
def Spool.at? (s : Spool) (n : Nat) (phase : Phase) : Option Call :=
  (s.calls n).filter (·.phase = phase)

/-- `enforceBound` returns nil. -/
def Spool.pass (s : Spool) (n : Nat) (call : Call) : Spool :=
  s.setCall n { call with phase := .passing, seen := s.lastId }

def Spool.fail (s : Spool) (n : Nat) (call : Call) : Spool :=
  s.setCall n { call with phase := .returned false }

/-- The INSERT. -/
def Spool.insert (s : Spool) (n : Nat) (call : Call) : Spool :=
  let id := s.lastId + 1
  let after : Spool := { s with
    events := s.events ++ [{ id, size := call.size, readable := true }]
    lastId := id }
  let call : Call := { call with row := some id, phase := .summing }
  if s.maxBytes ≤ 0 then after.pass n call else after.setCall n call

/-- The DELETE of the row with the least id, which affects none in an empty table. -/
def Spool.evict (s : Spool) (n : Nat) (call : Call) : Spool :=
  match s.events with
  | [] => s.pass n call
  | oldest :: rest =>
    { s.setCall n { call with phase := .summing } with
      events := rest
      evicted := s.evicted ++ [(oldest.id, s.events.map (·.id))] }

def Spool.deleteRow (s : Spool) (row : Row) : Spool :=
  { s with events := s.events.filter (·.id ≠ row.id) }

/-- A process that crashes leaves the table. -/
def Call.crash (call : Call) : Call :=
  match call.phase with
  | .returned _ => call
  | _ => { call with phase := .crashed }

/-- A step that cannot be taken changes nothing. -/
def step (s : Spool) : Op → Spool
  | .enqueue size marshals =>
    { s.setCall s.issued
        { size, phase := if marshals then .inserting else .returned false } with
      issued := s.issued + 1 }
  | .insert n ok =>
    match s.at? n .inserting with
    | none => s
    | some call => if ok then s.insert n call else s.fail n call
  | .sum n ok =>
    match s.at? n .summing with
    | none => s
    | some call =>
      if ok then
        if s.maxBytes < totalBytes s.events then s.setCall n { call with phase := .evicting }
        else s.pass n call
      else s.fail n call
  | .evict n ok =>
    match s.at? n .evicting with
    | none => s
    | some call => if ok then s.evict n call else s.fail n call
  | .back n =>
    match s.at? n .passing with
    | none => s
    | some call => s.setCall n { call with phase := .returned true }
  | .query ok rows =>
    match s.drain with
    | none => if ok then { s with drain := some (.publishing (s.events.take rows)) } else s
    | some _ => s
  | .publish ok =>
    match s.drain with
    | some (.publishing (row :: batch)) =>
      if row.readable then
        { s with
          copies := s.copies ++ [(row.id, ok)]
          drain := if ok then some (.deleting row batch) else none }
      else { s with drain := some (.dropping row batch) }
    | _ => s
  | .delete ok =>
    match s.drain with
    | some (.deleting row batch) =>
      if ok then { s.deleteRow row with drain := some (.publishing batch) }
      else { s with drain := none }
    | some (.dropping row batch) =>
      { (if ok then s.deleteRow row else s) with drain := some (.publishing batch) }
    | _ => s
  | .finish =>
    match s.drain with
    | some (.publishing []) => { s with drain := none }
    | _ => s
  | .crash => { s with calls := fun n => (s.calls n).map (·.crash), drain := none }

/-- The rows of the drain's batch that it has not come to. -/
def Spool.pending (s : Spool) : List Row :=
  match s.drain with
  | some (.publishing batch) | some (.deleting _ batch) | some (.dropping _ batch) => batch
  | none => []

/-- The ids that were passed to the publish function. -/
def Spool.attempts (s : Spool) : List Nat :=
  s.copies.map (·.1)

/-- Those for which it returned nil. -/
def Spool.published (s : Spool) : List Nat :=
  (s.copies.filter (·.2)).map (·.1)

/-- The first occurrences come in increasing order. -/
def FirstsInOrder (ids : List Nat) : Prop :=
  ∀ before id after, ids = before ++ id :: after → id ∉ before → ∀ earlier ∈ before, earlier < id

/-- The rows that were there when the call's last statement ran. -/
def Spool.seenBy (s : Spool) (call : Call) : List Row :=
  s.events.filter (·.id ≤ call.seen)

/-- What holds of the spool at any time.  Ids are given out in the order of the INSERTs: the
first copies go out in that order; a row whose `enqueue` returned nil is in the table, was
published, or was evicted as the oldest; and what was in the table when an `enqueue` that
returned nil last looked is within the bound. -/
structure Kept (s : Spool) : Prop where
  attempts : FirstsInOrder s.attempts
  published : FirstsInOrder s.published
  accounted : ∀ n call, s.calls n = some call → call.phase = .returned true → ∃ id,
    call.row = some id ∧ ((∃ row ∈ s.events, row.id = id) ∨ id ∈ s.published ∨
      ∃ others, (id, others) ∈ s.evicted ∧ ∀ other ∈ others, id ≤ other)
  bound : 0 < s.maxBytes → ∀ n call, s.calls n = some call → call.phase = .returned true →
    totalBytes (s.seenBy call) ≤ s.maxBytes

end HelixKit.Helixd
