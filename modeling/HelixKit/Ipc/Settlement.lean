/-
Purpose: Every request of the IPC client is settled once, in every order of the
  steps of its callers and of its run loop.
Trusted boundary: none
Main exports: requests_settle
-/
import HelixKit.Ipc.Requests

namespace HelixKit.Ipc

open HelixKit.Runs

@[simp] theorem at?_eq_some {c : Client} {r : Nat} {phase : Phase} {request : Request} :
    c.at? r phase = some request ↔ c.requests r = some request ∧ request.phase = phase := by
  simp [Client.at?, Option.filter_eq_some_iff]

section Put

variable (c : Client) (r : Nat) (request : Request)

@[simp] theorem put_self : (c.put r request).requests r = some request :=
  Function.update_self ..

theorem put_of_ne {s : Nat} (other : s ≠ r) : (c.put r request).requests s = c.requests s :=
  Function.update_of_ne other ..

@[simp] theorem put_loop : (c.put r request).loop = c.loop := rfl

@[simp] theorem put_pending : (c.put r request).pending = c.pending := rfl

@[simp] theorem put_counter : (c.put r request).counter = c.counter := rfl

@[simp] theorem put_issued : (c.put r request).issued = c.issued := rfl

end Put

/-- An entry that is there after a deletion is another one. -/
theorem delete_pending {c : Client} {id other : Nat} {r : Nat}
    (found : (c.delete id).pending other = some r) : other ≠ id ∧ c.pending other = some r := by
  by_cases same : other = id
  · subst same
    simp [Client.delete] at found
  · exact ⟨same, by simpa [Client.delete, Function.update_of_ne same] using found⟩

@[simp] theorem delete_self (c : Client) (id : Nat) : (c.delete id).pending id = none :=
  Function.update_self ..

/-! ### The invariant -/

section Invariant

variable (Sent : Response → Prop)

/-- The response is for the request: the server sent it, or the connection was lost. -/
def Answers (request : Request) (response : Response) : Prop :=
  response.id = request.id ∧ (response.error = true ∨ Sent response)

/-- A response is in the channel, or the caller is back. -/
def Request.Settled (request : Request) : Prop :=
  request.respCh ≠ none ∨ ∃ outcome, request.phase = .returned outcome

structure RequestOk (counter : Nat) (request : Request) : Prop where
  counted : request.id ≤ counter
  numbered : request.id = 0 → ∃ outcome, request.phase = .returned outcome
  called : request.phase = .called → request.respCh = none
  channel : ∀ response, request.respCh = some response → Answers Sent request response
  returned : ∀ response, request.phase = .returned (.reply response) →
    Answers Sent request response

/-- The request of an entry has its id and is not settled, or the loop over the
entries has just sent to it. -/
structure EntryOk (loop : Loop) (id : Nat) (request : Request) : Prop where
  same : request.id = id
  numbered : id ≠ 0
  entered : request.phase ≠ .called
  unsettled : request.Settled → loop = .disconnecting (some id)

/-- What the read loop is about to send finds its channel empty. -/
structure DeliveryOk (c : Client) (request : Request) (response : Response) : Prop where
  same : response.id = request.id
  numbered : response.id ≠ 0
  entered : request.phase ≠ .called
  empty : request.respCh = none
  taken : c.pending response.id = none
  sent : Sent response

structure Inv (c : Client) : Prop where
  requests : ∀ {r request}, c.requests r = some request → RequestOk Sent c.counter request
  fresh : ∀ r, c.issued ≤ r → c.requests r = none
  distinct : ∀ {r s request other}, c.requests r = some request → c.requests s = some other →
    request.id = other.id → request.id ≠ 0 → r = s
  entries : ∀ {id r}, c.pending id = some r →
    ∃ request, c.requests r = some request ∧ EntryOk c.loop id request
  delivering : ∀ {r response}, c.loop = .delivering r response →
    ∃ request, c.requests r = some request ∧ DeliveryOk Sent c request response
  visited : ∀ {id}, c.loop = .disconnecting (some id) → ∃ r, c.pending id = some r

end Invariant

theorem inv_start (Sent : Response → Prop) : Inv Sent {} where
  requests := by intro r request found; cases found
  fresh := by intro r _; rfl
  distinct := by intro r s request other found; cases found
  entries := by intro id r found; cases found
  delivering := by intro r response running; cases running
  visited := by intro id running; cases running

theorem RequestOk.mono {Sent : Response → Prop} {counter more : Nat} {request : Request}
    (ok : RequestOk Sent counter request) (le : counter ≤ more) : RequestOk Sent more request :=
  { ok with counted := Nat.le_trans ok.counted le }

namespace Inv

variable {Sent : Response → Prop} {c : Client}

/-- A request that has not been entered has no entry. -/
theorem absent (inv : Inv Sent c) {r : Nat} {request : Request} (found : c.requests r = some request)
    (called : request.phase = .called) : c.pending request.id = none := by
  cases entry : c.pending request.id with
  | none => rfl
  | some s =>
    obtain ⟨other, at_s, ok⟩ := inv.entries entry
    have same : s = r := inv.distinct at_s found ok.same (ok.same ▸ ok.numbered)
    subst same
    rw [found] at at_s
    cases at_s
    exact absurd called ok.entered

theorem issued (inv : Inv Sent c) {r : Nat} {request : Request}
    (found : c.requests r = some request) : r ≠ c.issued := by
  rintro rfl
  rw [inv.fresh _ (Nat.le_refl _)] at found
  cases found

/-- The loop moves on, and ids are taken. -/
theorem move (inv : Inv Sent c) {conn : Bool} {counter : Nat} {loop : Loop}
    (counted : c.counter ≤ counter) (before : ∀ id, c.loop ≠ .disconnecting (some id))
    (sending : ∀ r response, loop ≠ .delivering r response)
    (visited : ∀ id, loop = .disconnecting (some id) → ∃ r, c.pending id = some r) :
    Inv Sent { c with conn := conn, counter := counter, loop := loop } where
  requests := by intro r request found; exact (inv.requests found).mono counted
  fresh := inv.fresh
  distinct := inv.distinct
  entries := by
    intro id r found
    obtain ⟨request, there, ok⟩ := inv.entries found
    have unsettled : ¬ request.Settled := fun settled => before id (ok.unsettled settled)
    exact ⟨request, there, { ok with unsettled := fun settled => absurd settled unsettled }⟩
  delivering := by intro r response running; exact absurd running (sending r response)
  visited := by intro id running; exact visited id running

/-- An entry that the loop has not just sent to goes. -/
theorem delete (inv : Inv Sent c) (id : Nat) (other : c.loop ≠ .disconnecting (some id)) :
    Inv Sent (c.delete id) where
  requests := inv.requests
  fresh := inv.fresh
  distinct := inv.distinct
  entries := by intro id' r found; exact inv.entries (delete_pending found).2
  delivering := by
    intro r response running
    obtain ⟨request, found, ok⟩ := inv.delivering running
    have taken : (c.delete id).pending response.id = none := by
      cases entry : (c.delete id).pending response.id with
      | none => rfl
      | some s => exact (delete_pending entry).2.symm.trans ok.taken
    exact ⟨request, found, { ok with taken := taken }⟩
  visited := by
    intro id' running
    obtain ⟨r, found⟩ := inv.visited running
    have different : id' ≠ id := fun same => other (same ▸ running)
    exact ⟨r, by simpa [Client.delete, Function.update_of_ne different] using found⟩

/-- A request goes on. -/
theorem put (inv : Inv Sent c) {r : Nat} {old : Request} (found : c.requests r = some old)
    (new : Request) (same : new.id = old.id) (ok : RequestOk Sent c.counter new)
    (entered : old.phase ≠ .called → new.phase ≠ .called)
    (settled : new.Settled →
      old.Settled ∨ c.pending old.id = none ∨ c.loop = .disconnecting (some old.id))
    (channel : new.respCh = old.respCh ∨ new.respCh = none ∨
      ∀ response, c.loop ≠ .delivering r response) :
    Inv Sent (c.put r new) where
  requests := by
    intro s request there
    by_cases eq : s = r
    · subst eq
      rw [put_self] at there
      cases there
      exact ok
    · exact inv.requests (by rwa [put_of_ne _ _ _ eq] at there)
  fresh := by
    intro s late
    have other : s ≠ r := by
      rintro rfl
      rw [inv.fresh s late] at found
      cases found
    rw [put_of_ne _ _ _ other]
    exact inv.fresh s late
  distinct := by
    have before : ∀ {s request}, (c.put r new).requests s = some request →
        ∃ was, c.requests s = some was ∧ was.id = request.id := by
      intro s request there
      by_cases eq : s = r
      · subst eq
        rw [put_self] at there
        cases there
        exact ⟨old, found, same.symm⟩
      · exact ⟨request, by rwa [put_of_ne _ _ _ eq] at there, rfl⟩
    intro s t request other at_s at_t eq nonzero
    obtain ⟨was, was_s, was_id⟩ := before at_s
    obtain ⟨wot, was_t, wot_id⟩ := before at_t
    exact inv.distinct was_s was_t (by rw [was_id, wot_id, eq]) (by rwa [was_id])
  entries := by
    intro id s entry
    obtain ⟨request, there, entryOk⟩ := inv.entries entry
    by_cases eq : s = r
    · subst eq
      rw [found] at there
      cases there
      refine ⟨new, put_self .., same.trans entryOk.same, entryOk.numbered,
        entered entryOk.entered, fun now => ?_⟩
      rcases settled now with was | none | visited
      · exact entryOk.unsettled was
      · rw [entryOk.same] at none
        rw [put_pending, none] at entry
        cases entry
      · rw [put_loop, visited, entryOk.same]
    · exact ⟨request, by rwa [put_of_ne _ _ _ eq], entryOk⟩
  delivering := by
    intro s response running
    obtain ⟨request, there, delivery⟩ := inv.delivering running
    by_cases eq : s = r
    · subst eq
      rw [found] at there
      cases there
      have empty : new.respCh = none := by
        rcases channel with kept | gone | idle
        · exact kept.trans delivery.empty
        · exact gone
        · exact absurd running (idle response)
      exact ⟨new, put_self .., delivery.same.trans same.symm, delivery.numbered,
        entered delivery.entered, empty, delivery.taken, delivery.sent⟩
    · exact ⟨request, by rwa [put_of_ne _ _ _ eq], { delivery with }⟩
  visited := inv.visited

/-- A caller that is not back yet has an id. -/
theorem nonzero (inv : Inv Sent c) {r : Nat} {request : Request} (found : c.requests r = some request)
    (away : ∀ outcome, request.phase ≠ .returned outcome) : request.id ≠ 0 := by
  intro zero
  obtain ⟨outcome, back⟩ := (inv.requests found).numbered zero
  exact away outcome back

/-- A caller goes on; it comes back only without an entry. -/
theorem phase (inv : Inv Sent c) {r : Nat} {request : Request} (found : c.requests r = some request)
    (away : ∀ outcome, request.phase ≠ .returned outcome) {phase : Phase}
    (entered : phase ≠ .called) (failed : ∀ response, phase ≠ .returned (.reply response))
    (removed : ∀ outcome, phase = .returned outcome → c.pending request.id = none) :
    Inv Sent (c.put r { request with phase := phase }) := by
  have ok := inv.requests found
  have numbered : request.id ≠ 0 := inv.nonzero found away
  apply inv.put found { request with phase := phase } rfl
  · exact ⟨ok.counted, fun zero => absurd zero numbered, fun called => absurd called entered,
      ok.channel, fun response back => absurd back (failed response)⟩
  · intro _
    exact entered
  · rintro (full | ⟨outcome, back⟩)
    · exact .inl (.inl full)
    · exact .inr (.inl (removed outcome back))
  · exact .inl rfl

/-- A new request has an id of its own, or none. -/
theorem add (inv : Inv Sent c) {request : Request} {counter : Nat} (counted : c.counter ≤ counter)
    (ok : RequestOk Sent counter request)
    (new : ∀ {s other}, c.requests s = some other → request.id = other.id → request.id = 0) :
    Inv Sent { c.put c.issued request with issued := c.issued + 1, counter := counter } where
  requests := by
    intro s other there
    by_cases eq : s = c.issued
    · subst eq
      rw [put_self] at there
      cases there
      exact ok
    · exact (inv.requests (by rwa [put_of_ne _ _ _ eq] at there)).mono counted
  fresh := by
    intro s late
    have late : c.issued + 1 ≤ s := late
    exact (put_of_ne _ _ _ (by omega)).trans (inv.fresh s (by omega))
  distinct := by
    intro s t one other at_s at_t eq nonzero
    by_cases first : s = c.issued
    · by_cases second : t = c.issued
      · rw [first, second]
      · rw [put_of_ne _ _ _ second] at at_t
        rw [first, put_self] at at_s
        cases at_s
        exact absurd (new at_t eq) nonzero
    rw [put_of_ne _ _ _ first] at at_s
    by_cases second : t = c.issued
    · rw [second, put_self] at at_t
      cases at_t
      exact absurd (eq.trans (new at_s eq.symm)) nonzero
    · rw [put_of_ne _ _ _ second] at at_t
      exact inv.distinct at_s at_t eq nonzero
  entries := by
    intro id s entry
    obtain ⟨other, there, entryOk⟩ := inv.entries entry
    exact ⟨other, (put_of_ne _ _ _ (inv.issued there)).trans there, entryOk⟩
  delivering := by
    intro s response running
    obtain ⟨other, there, delivery⟩ := inv.delivering running
    exact ⟨other, (put_of_ne _ _ _ (inv.issued there)).trans there, { delivery with }⟩
  visited := inv.visited

/-! ### The steps -/

theorem call (inv : Inv Sent c) (encodes : Bool) : Inv Sent (step c (.call encodes)) := by
  have ids : ∀ {r request}, c.requests r = some request → request.id ≤ c.counter :=
    fun found => (inv.requests found).counted
  simp only [step]
  split
  · apply inv.add (Nat.le_succ _)
    · exact ⟨Nat.le_refl _, by simp, by simp, by simp, by simp⟩
    · intro s other found same
      have := ids found
      simp only at same
      omega
  · apply inv.add (Nat.le_refl _)
    · exact ⟨Nat.zero_le _, by simp, by simp, by simp, by simp⟩
    · intro s other found same
      rfl

/-- An entry is made for a request that nothing is on its way to. -/
theorem insert (inv : Inv Sent c) {r : Nat} {request : Request} (found : c.requests r = some request)
    (inserted : request.phase = .inserted) (empty : request.respCh = none) (free : c.muFree = true)
    (idle : ∀ r response, c.loop = .delivering r response → response.id ≠ request.id) :
    Inv Sent { c with pending := Function.update c.pending request.id (some r) } where
  requests := inv.requests
  fresh := inv.fresh
  distinct := inv.distinct
  entries := by
    intro id s entry
    have entry : Function.update c.pending request.id (some r) id = some s := entry
    by_cases same : id = request.id
    · subst same
      rw [Function.update_self] at entry
      cases entry
      have away : ∀ outcome, request.phase ≠ .returned outcome := by simp [inserted]
      refine ⟨request, found, rfl, inv.nonzero found away, by simp [inserted], ?_⟩
      rintro (full | ⟨outcome, back⟩)
      · exact absurd empty full
      · exact absurd back (away outcome)
    · rw [Function.update_of_ne same] at entry
      exact inv.entries entry
  delivering := by
    intro s response running
    obtain ⟨other, there, ok⟩ := inv.delivering running
    have taken : Function.update c.pending request.id (some r) response.id = none := by
      rw [Function.update_of_ne (idle s response running)]
      exact ok.taken
    exact ⟨other, there, { ok with taken := taken }⟩
  visited := by
    intro id running
    have running : c.loop = .disconnecting (some id) := running
    simp [Client.muFree, running] at free

theorem enter (inv : Inv Sent c) (r : Nat) : Inv Sent (step c (.enter r)) := by
  simp only [step]
  split
  · exact inv
  next request here =>
    obtain ⟨found, called⟩ := at?_eq_some.1 here
    have away : ∀ outcome, request.phase ≠ .returned outcome := by simp [called]
    split
    next free =>
      split
      · have put : Inv Sent (c.put r { request with phase := .inserted }) :=
          inv.phase found away (by simp) (by simp) (by simp)
        apply put.insert (put_self ..) rfl ((inv.requests found).called called) free
        intro s response running same
        obtain ⟨other, there, ok⟩ := inv.delivering running
        have eq : s = r := inv.distinct there found (ok.same.symm.trans same) (ok.same ▸ ok.numbered)
        subst eq
        rw [found] at there
        cases there
        exact ok.entered called
      · apply inv.phase found away (by simp) (by simp)
        intro _ _
        exact inv.absent found called
    · exact inv

theorem write (inv : Inv Sent c) (r : Nat) (done : Bool) : Inv Sent (step c (.write r done)) := by
  simp only [step]
  split
  · exact inv
  next request here =>
    obtain ⟨found, inserted⟩ := at?_eq_some.1 here
    have away : ∀ outcome, request.phase ≠ .returned outcome := by simp [inserted]
    cases done with
    | true | false => exact inv.phase found away (by simp) (by simp) (by simp)

theorem receive (inv : Inv Sent c) (r : Nat) : Inv Sent (step c (.receive r)) := by
  simp only [step]
  split
  · exact inv
  next request here =>
    obtain ⟨found, waiting⟩ := at?_eq_some.1 here
    have ok := inv.requests found
    split
    · exact inv
    next response full =>
      apply inv.put found { request with phase := .returned (.reply response), respCh := none } rfl
      · refine ⟨ok.counted, fun _ => ⟨_, rfl⟩, by simp, by simp, ?_⟩
        intro other back
        cases back
        exact ok.channel response full
      · simp
      · intro _
        exact .inl (.inl (by simp [full]))
      · exact .inr (.inl rfl)

theorem timeout (inv : Inv Sent c) (r : Nat) : Inv Sent (step c (.timeout r)) := by
  simp only [step]
  split
  · exact inv
  next request here =>
    obtain ⟨found, waiting⟩ := at?_eq_some.1 here
    have away : ∀ outcome, request.phase ≠ .returned outcome := by simp [waiting]
    exact inv.phase found away (by simp) (by simp) (by simp)

theorem leave (inv : Inv Sent c) (r : Nat) : Inv Sent (step c (.leave r)) := by
  simp only [step, leaveRequest]
  split
  next request found =>
    split
    next failure leaving =>
      split
      next free =>
        have away : ∀ outcome, request.phase ≠ .returned outcome := by simp [leaving]
        have deleted : Inv Sent (c.delete request.id) := by
          apply inv.delete
          intro running
          simp [Client.muFree, running] at free
        exact deleted.phase found away (by simp) (by simp) fun _ _ => delete_self ..
      · exact inv
    · exact inv
  · exact inv

theorem nextID (inv : Inv Sent c) : Inv Sent (step c .nextID) where
  requests := fun found => (inv.requests found).mono (Nat.le_succ _)
  fresh := inv.fresh
  distinct := inv.distinct
  entries := inv.entries
  delivering := by
    intro r response running
    obtain ⟨request, found, ok⟩ := inv.delivering running
    exact ⟨request, found, { ok with }⟩
  visited := inv.visited

theorem connect (inv : Inv Sent c) : Inv Sent (step c .connect) := by
  simp only [step]
  split
  next dialing => exact inv.move (Nat.le_succ _) (by simp [dialing]) (by simp) (by simp)
  · exact inv

theorem disconnect (inv : Inv Sent c) : Inv Sent (step c .disconnect) := by
  simp only [step]
  split
  next reading => exact inv.move (Nat.le_refl _) (by simp [reading]) (by simp) (by simp)
  · exact inv

theorem reply (inv : Inv Sent c) (response : Response) (sent : Sent response) :
    Inv Sent (step c (.reply response)) := by
  simp only [step]
  split
  next reading =>
    split
    · exact inv
    next channel entry =>
      obtain ⟨request, found, ok⟩ := inv.entries entry
      have unsettled : ¬ request.Settled := by
        intro settled
        simpa [reading] using ok.unsettled settled
      have deleted : Inv Sent (c.delete response.id) := inv.delete _ (by simp [reading])
      have empty : request.respCh = none := by
        by_contra full
        exact unsettled (.inl full)
      exact {
        requests := deleted.requests
        fresh := deleted.fresh
        distinct := deleted.distinct
        entries := by
          intro id s other
          obtain ⟨there, at_s, entryOk⟩ := deleted.entries other
          refine ⟨there, at_s, { entryOk with unsettled := fun settled => ?_ }⟩
          have running : c.loop = .disconnecting (some id) := entryOk.unsettled settled
          simp [reading] at running
        delivering := by
          intro s other running
          cases running
          exact ⟨request, found, ok.same.symm, ok.numbered, ok.entered, empty, delete_self .., sent⟩
        visited := by
          intro id running
          cases running }
  · exact inv

theorem send (inv : Inv Sent c) : Inv Sent (step c .send) := by
  simp only [step]
  split
  next channel response sending =>
    split
    · exact inv
    next request found =>
      split
      · obtain ⟨other, there, ok⟩ := inv.delivering sending
        rw [found] at there
        cases there
        have known := inv.requests found
        have reading : Inv Sent { c with loop := .reading } :=
          inv.move (Nat.le_refl _) (by simp [sending]) (by simp) (by simp)
        apply reading.put found { request with respCh := some response } rfl
        · refine ⟨known.counted, known.numbered, fun called => absurd called ok.entered, ?_,
            known.returned⟩
          intro other full
          cases full
          exact ⟨ok.same, .inr ok.sent⟩
        · exact fun entered => entered
        · intro _
          exact .inr (.inl (ok.same ▸ ok.taken))
        · exact .inr (.inr (by simp))
      · exact inv
  · exact inv

theorem visit (inv : Inv Sent c) (id : Nat) : Inv Sent (step c (.visit id)) := by
  simp only [step]
  split
  next channel visiting entry =>
    split
    · exact inv
    next request found =>
      obtain ⟨other, there, ok⟩ := inv.entries entry
      rw [found] at there
      cases there
      have known := inv.requests found
      have empty : request.respCh = none := by
        by_contra full
        simpa [visiting] using ok.unsettled (.inl full)
      have visited : Inv Sent { c with loop := .disconnecting (some id) } := by
        apply inv.move (Nat.le_refl _) (by simp [visiting]) (by simp)
        intro other running
        cases running
        exact ⟨channel, entry⟩
      apply visited.put found
        { request with respCh := request.respCh.getD { id, error := true } } rfl
      · refine ⟨known.counted, known.numbered, fun called => absurd called ok.entered, ?_,
          known.returned⟩
        intro response full
        simp only [empty, Option.getD_none, Option.some.injEq] at full
        subst full
        exact ⟨ok.same.symm, .inl rfl⟩
      · exact fun entered => entered
      · intro _
        exact .inr (.inr (by rw [ok.same]))
      · exact .inr (.inr (by simp))
  · exact inv

theorem remove (inv : Inv Sent c) : Inv Sent (step c .remove) := by
  simp only [step]
  split
  next id running =>
    exact {
      requests := inv.requests
      fresh := inv.fresh
      distinct := inv.distinct
      entries := by
        intro other s entry
        obtain ⟨different, before⟩ := delete_pending entry
        obtain ⟨request, there, ok⟩ := inv.entries before
        refine ⟨request, there, { ok with unsettled := fun settled => ?_ }⟩
        have visited := ok.unsettled settled
        rw [running] at visited
        cases visited
        exact absurd rfl different
      delivering := by
        intro s response sending
        cases sending
      visited := by
        intro other visited
        cases visited }
  · exact inv

theorem unlock (inv : Inv Sent c) : Inv Sent (step c .unlock) := by
  simp only [step]
  split
  next running =>
    split
    · exact inv.move (Nat.le_refl _) (by simp [running]) (by simp) (by simp)
    · exact inv
  · exact inv

/-- Every step keeps the invariant. -/
theorem step (inv : Inv Sent c) (op : Op) (sent : ∀ response, op = .reply response → Sent response) :
    Inv Sent (step c op) := by
  cases op with
  | call encodes => exact inv.call encodes
  | enter r => exact inv.enter r
  | write r done => exact inv.write r done
  | receive r => exact inv.receive r
  | timeout r => exact inv.timeout r
  | leave r => exact inv.leave r
  | nextID => exact inv.nextID
  | connect => exact inv.connect
  | reply response => exact inv.reply response (sent response rfl)
  | send => exact inv.send
  | disconnect => exact inv.disconnect
  | visit id => exact inv.visit id
  | remove => exact inv.remove
  | unlock => exact inv.unlock
  | cancel => exact inv

end Inv

end HelixKit.Ipc
