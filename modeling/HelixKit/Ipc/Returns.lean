/-
Purpose: Every request of the IPC client returns exactly once, with its own reply
  or an error, and leaves no entry behind.
Trusted boundary: none
Main exports: requests_settle
-/
import HelixKit.Ipc.Settlement
import Mathlib.Algebra.BigOperators.Group.Finset.Piecewise
import Mathlib.Algebra.Order.BigOperators.Group.Finset

namespace HelixKit.Ipc

open HelixKit.Runs

variable {Sent : Response → Prop} {c : Client}

/-! ### A caller that is back stays back -/

theorem put_returned {r s : Nat} {old new : Request} {outcome : Outcome}
    (found : c.requests s = some old)
    (keeps : ∀ outcome, old.phase = .returned outcome → new.phase = .returned outcome)
    (back : c.Returned r outcome) : (c.put s new).Returned r outcome := by
  obtain ⟨request, there, returned⟩ := back
  by_cases same : r = s
  · subst same
    rw [found] at there
    cases there
    exact ⟨new, put_self .., keeps outcome returned⟩
  · exact ⟨request, by rwa [put_of_ne _ _ _ same], returned⟩

theorem step_returned (inv : Inv Sent c) {r : Nat} {outcome : Outcome} (back : c.Returned r outcome)
    (op : Op) : (step c op).Returned r outcome := by
  cases op with
  | call encodes =>
    obtain ⟨request, there, returned⟩ := back
    have other := inv.issued there
    simp only [step]
    split
    · exact ⟨request, (put_of_ne _ _ _ other).trans there, returned⟩
    · exact ⟨request, (put_of_ne _ _ _ other).trans there, returned⟩
  | enter s =>
    simp only [step]
    split
    · exact back
    next request here =>
      obtain ⟨found, called⟩ := at?_eq_some.1 here
      split
      · split
        · exact put_returned found (by simp [called]) back
        · exact put_returned found (by simp [called]) back
      · exact back
  | write s ok =>
    simp only [step]
    split
    · exact back
    next request here =>
      obtain ⟨found, inserted⟩ := at?_eq_some.1 here
      exact put_returned found (by simp [inserted]) back
  | receive s =>
    simp only [step]
    split
    · exact back
    next request here =>
      obtain ⟨found, waiting⟩ := at?_eq_some.1 here
      split
      · exact back
      · exact put_returned found (by simp [waiting]) back
  | timeout s =>
    simp only [step]
    split
    · exact back
    next request here =>
      obtain ⟨found, waiting⟩ := at?_eq_some.1 here
      exact put_returned found (by simp [waiting]) back
  | leave s =>
    simp only [step, leaveRequest]
    split
    next request found =>
      split
      next failure leaving =>
        split
        · exact put_returned found (by simp [leaving]) back
        · exact back
      · exact back
    · exact back
  | nextID => exact back
  | connect | disconnect | remove =>
    simp only [step]
    split
    · exact back
    · exact back
  | reply response | unlock =>
    simp only [step]
    split
    · split
      · exact back
      · exact back
    · exact back
  | send =>
    simp only [step]
    split
    · split
      · exact back
      next request found =>
        split
        · exact put_returned found (by simp) back
        · exact back
    · exact back
  | visit id =>
    simp only [step]
    split
    · split
      · exact back
      next request found => exact put_returned found (by simp) back
    · exact back
  | cancel => exact back

/-! ### What is left to do -/

def Phase.weight : Phase → Nat
  | .called => 7
  | .inserted => 3
  | .waiting => 2
  | .leaving _ => 1
  | .returned _ => 0

def Loop.weight : Loop → Nat
  | .dialing | .reading => 0
  | .delivering _ _ => 1
  | .disconnecting none => 2
  | .disconnecting (some _) => 1

def callerWeight (request : Option Request) : Nat :=
  request.elim 0 (·.phase.weight)

def entryWeight (entry : Option Nat) : Nat :=
  entry.elim 0 fun _ => 3

def callers (c : Client) : Nat :=
  ∑ r ∈ Finset.range c.issued, callerWeight (c.requests r)

def entries (c : Client) : Nat :=
  ∑ id ∈ Finset.range (c.counter + 1), entryWeight (c.pending id)

/-- The steps that callers and the run loop may still take by themselves. -/
def weight (c : Client) : Nat :=
  callers c + entries c + c.loop.weight

theorem sum_update {ι α : Type*} [DecidableEq ι] {s : Finset ι} {i : ι} (member : i ∈ s) (f : ι → α)
    (w : α → Nat) (x : α) :
    ∑ j ∈ s, w (Function.update f i x j) + w (f i) = ∑ j ∈ s, w (f j) + w x := by
  rw [← Finset.add_sum_erase s _ member, ← Finset.add_sum_erase s (fun j => w (f j)) member]
  have rest : ∑ j ∈ s.erase i, w (Function.update f i x j) = ∑ j ∈ s.erase i, w (f j) := by
    apply Finset.sum_congr rfl
    intro j other
    rw [Function.update_of_ne (Finset.ne_of_mem_erase other)]
  rw [rest, Function.update_self]
  omega

theorem callers_put (inv : Inv Sent c) {r : Nat} {old : Request} (found : c.requests r = some old)
    (new : Request) : callers (c.put r new) + old.phase.weight = callers c + new.phase.weight := by
  have early : r < c.issued := by
    by_contra late
    rw [inv.fresh r (by omega)] at found
    cases found
  have sum := sum_update (Finset.mem_range.2 early) c.requests callerWeight (some new)
  rw [found] at sum
  exact sum

theorem entries_insert {id : Nat} (counted : id ≤ c.counter) (absent : c.pending id = none) (r : Nat) :
    ∑ other ∈ Finset.range (c.counter + 1),
      entryWeight (Function.update c.pending id (some r) other) = entries c + 3 := by
  have sum := sum_update (Finset.mem_range.2 (Nat.lt_succ_of_le counted)) c.pending entryWeight (some r)
  rw [absent] at sum
  exact sum

theorem entries_delete (c : Client) (id : Nat) : entries (c.delete id) ≤ entries c := by
  apply Finset.sum_le_sum
  intro other _
  by_cases same : other = id
  · subst same
    rw [delete_self]
    exact Nat.zero_le _
  · simp [Client.delete, Function.update_of_ne same]

theorem entries_delete_of_some {id r : Nat} (counted : id ≤ c.counter) (found : c.pending id = some r) :
    entries (c.delete id) + 3 = entries c := by
  have sum := sum_update (Finset.mem_range.2 (Nat.lt_succ_of_le counted)) c.pending entryWeight none
  rw [found] at sum
  exact sum

theorem Inv.counted (inv : Inv Sent c) {id r : Nat} (found : c.pending id = some r) :
    id ≤ c.counter := by
  obtain ⟨request, there, ok⟩ := inv.entries found
  exact ok.same ▸ (inv.requests there).counted

/-- A caller that goes on lowers the weight. -/
theorem put_lowers (inv : Inv Sent c) {r : Nat} {old : Request} (found : c.requests r = some old)
    {new : Request} (lower : new.phase.weight < old.phase.weight) : weight (c.put r new) < weight c := by
  have same := callers_put inv found new
  change callers (c.put r new) + entries c + c.loop.weight < callers c + entries c + c.loop.weight
  omega

theorem enter_lowers (inv : Inv Sent c) (r : Nat) (moves : step c (.enter r) ≠ c) :
    weight (step c (.enter r)) < weight c := by
  revert moves
  simp only [step]
  split
  · exact fun moves => absurd rfl moves
  next request here =>
    obtain ⟨found, called⟩ := at?_eq_some.1 here
    split
    · intro _
      split
      · have lower := callers_put inv found { request with phase := .inserted }
        have more := entries_insert (inv.requests found).counted (inv.absent found called) r
        rw [called] at lower
        simp only [Phase.weight] at lower
        change callers (c.put r { request with phase := .inserted }) +
          ∑ other ∈ Finset.range (c.counter + 1),
            entryWeight (Function.update c.pending request.id (some r) other) + c.loop.weight <
          callers c + entries c + c.loop.weight
        omega
      · exact put_lowers inv found (by simp [called, Phase.weight])
    · exact fun moves => absurd rfl moves

theorem write_lowers (inv : Inv Sent c) (r : Nat) (ok : Bool) (moves : step c (.write r ok) ≠ c) :
    weight (step c (.write r ok)) < weight c := by
  revert moves
  simp only [step]
  split
  · exact fun moves => absurd rfl moves
  next request here =>
    obtain ⟨found, inserted⟩ := at?_eq_some.1 here
    intro _
    apply put_lowers inv found
    cases ok with
    | true => simp [inserted, Phase.weight]
    | false => simp [inserted, Phase.weight]

theorem receive_lowers (inv : Inv Sent c) (r : Nat) (moves : step c (.receive r) ≠ c) :
    weight (step c (.receive r)) < weight c := by
  revert moves
  simp only [step]
  split
  · exact fun moves => absurd rfl moves
  next request here =>
    obtain ⟨found, waiting⟩ := at?_eq_some.1 here
    split
    · exact fun moves => absurd rfl moves
    · intro _
      exact put_lowers inv found (by simp [waiting, Phase.weight])

theorem timeout_lowers (inv : Inv Sent c) (r : Nat) (moves : step c (.timeout r) ≠ c) :
    weight (step c (.timeout r)) < weight c := by
  revert moves
  simp only [step]
  split
  · exact fun moves => absurd rfl moves
  next request here =>
    obtain ⟨found, waiting⟩ := at?_eq_some.1 here
    intro _
    exact put_lowers inv found (by simp [waiting, Phase.weight])

theorem leave_lowers (inv : Inv Sent c) (r : Nat) (moves : step c (.leave r) ≠ c) :
    weight (step c (.leave r)) < weight c := by
  revert moves
  simp only [step, leaveRequest]
  split
  next request found =>
    split
    next failure leaving =>
      split
      · intro _
        have lower := callers_put inv found { request with phase := .returned (.failed failure) }
        have fewer := entries_delete c request.id
        rw [leaving] at lower
        simp only [Phase.weight] at lower
        change callers (c.put r { request with phase := .returned (.failed failure) }) +
          entries (c.delete request.id) + c.loop.weight < callers c + entries c + c.loop.weight
        omega
      · exact fun moves => absurd rfl moves
    · exact fun moves => absurd rfl moves
  · exact fun moves => absurd rfl moves

theorem send_lowers (inv : Inv Sent c) (moves : step c .send ≠ c) :
    weight (step c .send) < weight c := by
  revert moves
  simp only [step]
  split
  next channel response sending =>
    split
    · exact fun moves => absurd rfl moves
    next request found =>
      split
      · intro _
        have same : callers (c.put channel { request with respCh := some response }) +
            request.phase.weight = callers c + request.phase.weight := callers_put inv found _
        change callers (c.put channel { request with respCh := some response }) + entries c + 0 <
          callers c + entries c + c.loop.weight
        rw [sending]
        simp only [Loop.weight]
        omega
      · exact fun moves => absurd rfl moves
  · exact fun moves => absurd rfl moves

theorem visit_lowers (inv : Inv Sent c) (id : Nat) (moves : step c (.visit id) ≠ c) :
    weight (step c (.visit id)) < weight c := by
  revert moves
  simp only [step]
  split
  next channel visiting entry =>
    split
    · exact fun moves => absurd rfl moves
    next request found =>
      intro _
      have same : callers (c.put channel
            { request with respCh := request.respCh.getD { id, error := true } }) +
          request.phase.weight = callers c + request.phase.weight := callers_put inv found _
      change callers (c.put channel
          { request with respCh := request.respCh.getD { id, error := true } }) + entries c + 1 <
        callers c + entries c + c.loop.weight
      rw [visiting]
      simp only [Loop.weight]
      omega
  · exact fun moves => absurd rfl moves

theorem remove_lowers (inv : Inv Sent c) (moves : step c .remove ≠ c) :
    weight (step c .remove) < weight c := by
  revert moves
  simp only [step]
  split
  next id running =>
    intro _
    obtain ⟨r, found⟩ := inv.visited running
    have fewer := entries_delete_of_some (inv.counted found) found
    change callers c + entries (c.delete id) + 2 < callers c + entries c + c.loop.weight
    rw [running]
    simp only [Loop.weight]
    omega
  · exact fun moves => absurd rfl moves

theorem unlock_lowers (moves : step c .unlock ≠ c) : weight (step c .unlock) < weight c := by
  revert moves
  simp only [step]
  split
  next running =>
    split
    · intro _
      change callers c + entries c + 0 < callers c + entries c + c.loop.weight
      rw [running]
      simp only [Loop.weight]
      omega
    · exact fun moves => absurd rfl moves
  · exact fun moves => absurd rfl moves

/-- Whatever the client does by itself brings it closer to rest. -/
theorem own_lowers (inv : Inv Sent c) {op : Op} (moves : Moves c op) :
    weight (step c op) < weight c := by
  obtain ⟨own, moves⟩ := moves
  cases op with
  | enter r => exact enter_lowers inv r moves
  | write r ok => exact write_lowers inv r ok moves
  | receive r => exact receive_lowers inv r moves
  | timeout r => exact timeout_lowers inv r moves
  | leave r => exact leave_lowers inv r moves
  | send => exact send_lowers inv moves
  | visit id => exact visit_lowers inv id moves
  | remove => exact remove_lowers inv moves
  | unlock => exact unlock_lowers moves
  | call | nextID | connect | reply | disconnect | cancel => cases own

/-! ### At rest -/

/-- The run loop always gives `mu` back. -/
theorem rest_muFree (inv : Inv Sent c) (rest : AtRest c) : c.muFree = true := by
  have changes : ∀ op, op.own = true → (step c op).loop ≠ c.loop → False := by
    intro op own differs
    exact rest op ⟨own, fun same => differs (congrArg Client.loop same)⟩
  cases running : c.loop with
  | dialing | reading | delivering => simp [Client.muFree, running]
  | disconnecting visited =>
    exfalso
    cases visited with
    | some id => exact changes .remove rfl (by simp [step, running])
    | none =>
      by_cases empty : ∀ id ≤ c.counter, c.pending id = none
      · exact changes .unlock rfl (by simp [step, running, if_pos empty])
      · push Not at empty
        obtain ⟨id, -, some⟩ := empty
        obtain ⟨r, entry⟩ := Option.ne_none_iff_exists'.1 some
        obtain ⟨request, found, -⟩ := inv.entries entry
        exact changes (.visit id) rfl (by simp [step, running, entry, found])

theorem rest_returned (inv : Inv Sent c) (rest : AtRest c) {r : Nat} {request : Request}
    (found : c.requests r = some request) : ∃ outcome, request.phase = .returned outcome := by
  have free := rest_muFree inv rest
  have changes : ∀ op, op.own = true → (∃ new, (step c op).requests r = some new ∧
      new.phase ≠ request.phase) → False := by
    rintro op own ⟨new, there, differs⟩
    apply rest op ⟨own, fun same => ?_⟩
    rw [same, found] at there
    cases there
    exact differs rfl
  cases phase : request.phase with
  | called =>
    exfalso
    have here : c.at? r .called = some request := at?_eq_some.2 ⟨found, phase⟩
    apply changes (.enter r) rfl
    simp only [step, here, free, if_true]
    split
    · exact ⟨_, put_self .., by simp [phase]⟩
    · exact ⟨_, put_self .., by simp [phase]⟩
  | inserted =>
    exfalso
    have here : c.at? r .inserted = some request := at?_eq_some.2 ⟨found, phase⟩
    apply changes (.write r true) rfl
    simp only [step, here]
    exact ⟨_, put_self .., by simp [phase]⟩
  | waiting =>
    exfalso
    have here : c.at? r .waiting = some request := at?_eq_some.2 ⟨found, phase⟩
    apply changes (.timeout r) rfl
    simp only [step, here]
    exact ⟨_, put_self .., by simp [phase]⟩
  | leaving failure =>
    exfalso
    apply changes (.leave r) rfl
    simp only [step, leaveRequest, found, phase, free, if_true]
    exact ⟨_, put_self .., by simp⟩
  | returned outcome => exact ⟨outcome, rfl⟩

/-! ### Every request -/

/-- What holds of the requests after a run: their ids differ; an outcome stays; a
response is for the request that gets it; no entry is left once the caller is back and
`mu` is free; and the client comes to rest, with every caller back. -/
structure Settled (ops : List Op) (c : Client) : Prop where
  distinct : ∀ r s request other, c.requests r = some request → c.requests s = some other →
    request.id = other.id → request.id ≠ 0 → r = s
  once : ∀ r outcome, c.Returned r outcome → ∀ more, (run step c more).Returned r outcome
  own : ∀ r request response, c.requests r = some request →
    request.phase = .returned (.reply response) ∨ request.respCh = some response →
      response.id = request.id ∧ (response.error = true ∨ .reply response ∈ ops)
  removed : ∀ r request outcome, c.requests r = some request → request.phase = .returned outcome →
    c.muFree = true → c.pending request.id = none
  ends : ∀ more, Along step Moves c more → more.length ≤ weight c
  returns : AtRest c → ∀ r request, c.requests r = some request →
    ∃ outcome, request.phase = .returned outcome

theorem run_inv (ops : List Op) (sent : ∀ response, .reply response ∈ ops → Sent response) :
    Inv Sent (run step {} ops) := by
  have along : Along step (fun _ op => ∀ response, op = .reply response → Sent response) {} ops := by
    apply Along.of_forall
    intro op member _ response reply
    exact sent response (reply ▸ member)
  exact along.invariant _ (fun _ op inv sent => inv.step op sent) (inv_start _)

theorem own_ops (op : Op) (own : op.own = true) (response : Response) : op ≠ .reply response := by
  rintro rfl
  cases own

/-- Every request returns exactly once, with its own reply or an error, and leaves no
entry behind. -/
theorem requests_settle (ops : List Op) : Settled ops (run step {} ops) := by
  have inv : Inv (fun response => .reply response ∈ ops) (run step {} ops) :=
    run_inv ops fun _ member => member
  have known : Inv (fun _ => True) (run step {} ops) := run_inv ops fun _ _ => trivial
  exact {
    distinct := fun r s request other found there => inv.distinct found there
    once := by
      intro r outcome back more
      have along : Along step (fun _ _ => True) (run step {} ops) more :=
        Along.of_forall fun _ _ _ => trivial
      apply (along.invariant (fun c => Inv (fun _ => True) c ∧ c.Returned r outcome) _
        ⟨known, back⟩).2
      intro c op both _
      exact ⟨both.1.step op fun _ _ => trivial, step_returned both.1 both.2 op⟩
    own := by
      intro r request response found holds
      have ok := inv.requests found
      rcases holds with back | full
      · exact ok.returned response back
      · exact ok.channel response full
    removed := by
      intro r request outcome found back free
      cases entry : (run step {} ops).pending request.id with
      | none => rfl
      | some s =>
        obtain ⟨other, there, ok⟩ := inv.entries entry
        have same : s = r := inv.distinct there found ok.same (ok.same ▸ ok.numbered)
        subst same
        rw [found] at there
        cases there
        have running := ok.unsettled (.inr ⟨outcome, back⟩)
        simp [Client.muFree, running] at free
    ends := by
      intro more moving
      apply moving.bounded (Inv fun response => .reply response ∈ ops) weight
      · intro c op inv moves
        apply inv.step op
        intro response reply
        exact absurd reply (own_ops op moves.1 response)
      · intro c op inv moves
        exact own_lowers inv moves
      · exact inv
    returns := fun rest r request found => rest_returned inv rest found }

/-- At a disconnection the loop over the entries sends first and deletes next: the caller
may be back in between. -/
theorem entry_outlives_return :
    ¬ ∀ ops r request outcome, (run step {} ops).requests r = some request →
      request.phase = .returned outcome → (run step {} ops).pending request.id = none := by
  intro all
  have left := all [.connect, .call true, .enter 0, .write 0 true, .disconnect, .visit 2, .receive 0]
    0 ⟨2, .returned (.reply ⟨2, true⟩), none⟩ (.reply ⟨2, true⟩) rfl rfl
  cases left

end HelixKit.Ipc
