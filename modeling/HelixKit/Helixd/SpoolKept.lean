/-
Purpose: What the event spool keeps in every interleaving of enqueues and a drain:
  order, at-least-once and the bound.
Trusted boundary: none
Main exports: spool_kept
-/
import HelixKit.Helixd.Spool

namespace HelixKit.Helixd

open HelixKit.Runs

/-! ### The order of the copies -/

theorem FirstsInOrder.nil : FirstsInOrder [] := by
  intro before id after split
  simp at split

/-- A new id that is the greatest may come last, and so may one that has come before. -/
theorem FirstsInOrder.snoc {ids : List Nat} (order : FirstsInOrder ids) {id : Nat}
    (greatest : id ∉ ids → ∀ earlier ∈ ids, earlier < id) : FirstsInOrder (ids ++ [id]) := by
  intro before other after split fresh
  rcases List.eq_nil_or_concat after with rfl | ⟨more, last, rfl⟩
  · obtain ⟨same, heads⟩ := List.append_inj' split rfl
    cases heads
    exact same ▸ greatest (same ▸ fresh)
  · have longer : ids ++ [id] = (before ++ other :: more) ++ [last] := by
      rw [split]
      simp
    exact order before other more (List.append_inj' longer rfl).1 fresh

/-- How the copies that have gone out (`seen`), the rest of the batch and the table lie: the
batch goes up; a row that has not gone out comes after all that have; and one that is not
in the batch either comes after the batch. -/
structure Aligned (seen : List Nat) (pending events : List Row) (lastId : Nat) : Prop where
  order : FirstsInOrder seen
  given : ∀ id ∈ seen, id ≤ lastId
  rising : pending.Pairwise (·.id < ·.id)
  ahead : ∀ row ∈ events ++ pending, row.id ∉ seen → ∀ id ∈ seen, id < row.id
  behind : ∀ row ∈ events, row.id ∉ seen → row.id ∉ pending.map (·.id) →
    ∀ other ∈ pending, other.id < row.id

namespace Aligned

variable {seen : List Nat} {pending events rows : List Row} {lastId : Nat}

/-- Rows go from the table. -/
theorem shrink (aligned : Aligned seen pending events lastId) (fewer : rows ⊆ events) :
    Aligned seen pending rows lastId where
  order := aligned.order
  given := aligned.given
  rising := aligned.rising
  ahead := by
    intro row member
    apply aligned.ahead
    rcases List.mem_append.1 member with inTable | inBatch
    · exact List.mem_append_left _ (fewer inTable)
    · exact List.mem_append_right _ inBatch
  behind := fun row member => aligned.behind row (fewer member)

/-- The drain ends. -/
theorem stop (aligned : Aligned seen pending events lastId) : Aligned seen [] events lastId where
  order := aligned.order
  given := aligned.given
  rising := List.Pairwise.nil
  ahead := by
    intro row member
    rw [List.append_nil] at member
    exact aligned.ahead row (List.mem_append_left _ member)
  behind := by
    intro row _ _ _ other member
    cases member

/-- A row is added under the next id. -/
theorem insert (aligned : Aligned seen pending events lastId)
    (known : ∀ row ∈ pending, row.id ≤ lastId) {row : Row} (next : row.id = lastId + 1) :
    Aligned seen pending (events ++ [row]) (lastId + 1) where
  order := aligned.order
  given := fun id member => Nat.le_succ_of_le (aligned.given id member)
  rising := aligned.rising
  ahead := by
    intro other member unseen id earlier
    have given := aligned.given id earlier
    rcases List.mem_append.1 member with inTable | inBatch
    · rcases List.mem_append.1 inTable with old | new
      · exact aligned.ahead other (List.mem_append_left _ old) unseen id earlier
      · rw [List.mem_singleton.1 new]
        omega
    · exact aligned.ahead other (List.mem_append_right _ inBatch) unseen id earlier
  behind := by
    intro other member unseen outside earlier inBatch
    rcases List.mem_append.1 member with old | new
    · exact aligned.behind other old unseen outside earlier inBatch
    · rw [List.mem_singleton.1 new]
      have given := known earlier inBatch
      omega

/-- A drain takes the first rows of the table. -/
theorem query (aligned : Aligned seen [] events lastId) (sorted : events.Pairwise (·.id < ·.id))
    (n : Nat) : Aligned seen (events.take n) events lastId where
  order := aligned.order
  given := aligned.given
  rising := sorted.sublist (List.take_sublist n events)
  ahead := by
    intro row member
    apply aligned.ahead
    rw [List.append_nil]
    rcases List.mem_append.1 member with inTable | inBatch
    · exact inTable
    · exact List.mem_of_mem_take inBatch
  behind := by
    intro row member _ outside other inBatch
    rw [← List.take_append_drop n events] at member sorted
    rcases List.mem_append.1 member with taken | left
    · exact absurd (List.mem_map_of_mem taken) outside
    · exact (List.pairwise_append.1 sorted).2.2 other inBatch row left

/-- The next row of the batch goes out, again or for the first time. -/
theorem publish {row : Row} (aligned : Aligned seen (row :: pending) events lastId)
    (given : row.id ≤ lastId) : Aligned (seen ++ [row.id]) pending events lastId where
  order := by
    apply aligned.order.snoc
    exact aligned.ahead row (List.mem_append_right _ List.mem_cons_self)
  given := by
    intro id member
    rcases List.mem_append.1 member with old | new
    · exact aligned.given id old
    · rw [List.mem_singleton.1 new]
      exact given
  rising := (List.pairwise_cons.1 aligned.rising).2
  ahead := by
    intro other member unseen id earlier
    have fresh : other.id ∉ seen := fun old => unseen (List.mem_append_left _ old)
    have different : other.id ≠ row.id := fun same =>
      unseen (List.mem_append_right _ (List.mem_singleton.2 same))
    rcases List.mem_append.1 earlier with old | new
    · apply aligned.ahead other _ fresh id old
      rcases List.mem_append.1 member with inTable | inBatch
      · exact List.mem_append_left _ inTable
      · exact List.mem_append_right _ (List.mem_cons_of_mem _ inBatch)
    · rw [List.mem_singleton.1 new]
      rcases List.mem_append.1 member with inTable | inBatch
      · by_cases listed : other.id ∈ pending.map (·.id)
        · obtain ⟨same, inBatch, ids⟩ := List.mem_map.1 listed
          rw [← ids]
          exact (List.pairwise_cons.1 aligned.rising).1 same inBatch
        · apply aligned.behind other inTable fresh _ row List.mem_cons_self
          simp only [List.map_cons, List.mem_cons, not_or]
          exact ⟨different, listed⟩
      · exact (List.pairwise_cons.1 aligned.rising).1 other inBatch
  behind := by
    intro other member unseen outside earlier inBatch
    have fresh : other.id ∉ seen := fun old => unseen (List.mem_append_left _ old)
    have different : other.id ≠ row.id := fun same =>
      unseen (List.mem_append_right _ (List.mem_singleton.2 same))
    apply aligned.behind other member fresh _ earlier (List.mem_cons_of_mem _ inBatch)
    simp only [List.map_cons, List.mem_cons, not_or]
    exact ⟨different, outside⟩

end Aligned

/-! ### The invariant -/

/-- Where an event is once it was inserted. -/
def Placed (s : Spool) (id : Nat) : Prop :=
  (∃ row ∈ s.events, row.id = id) ∨ id ∈ s.published ∨ ∃ others, (id, others) ∈ s.evicted

structure CallOk (s : Spool) (call : Call) : Prop where
  placed : ∀ id, call.row = some id → Placed s id
  inserted : call.phase ≠ .inserting → call.phase ≠ .returned false → call.phase ≠ .crashed →
    call.row ≠ none
  bound : 0 < s.maxBytes → call.phase = .passing ∨ call.phase = .returned true →
    totalBytes (s.seenBy call) ≤ s.maxBytes
  seen : call.seen ≤ s.lastId

structure Inv (s : Spool) : Prop where
  sorted : s.events.Pairwise (·.id < ·.id)
  given : ∀ row ∈ s.events ++ s.pending, row.id ≤ s.lastId ∧ row.readable = true
  attempts : Aligned s.attempts s.pending s.events s.lastId
  published : Aligned s.published s.pending s.events s.lastId
  deleting : ∀ row batch, s.drain = some (.deleting row batch) → row.id ∈ s.published
  reads : ∀ row batch, s.drain ≠ some (.dropping row batch)
  evicted : ∀ id others, (id, others) ∈ s.evicted → ∀ other ∈ others, id ≤ other
  calls : ∀ n call, s.calls n = some call → CallOk s call

theorem setCall_self (s : Spool) (n : Nat) (call : Call) : (s.setCall n call).calls n = some call :=
  Function.update_self ..

theorem setCall_of_ne (s : Spool) (n : Nat) (call : Call) {m : Nat} (other : m ≠ n) :
    (s.setCall n call).calls m = s.calls m :=
  Function.update_of_ne other ..

theorem at?_eq_some {s : Spool} {n : Nat} {phase : Phase} {call : Call} :
    s.at? n phase = some call ↔ s.calls n = some call ∧ call.phase = phase := by
  simp [Spool.at?, Option.filter_eq_some_iff]

theorem inv_start (maxBytes : Int) : Inv { maxBytes } where
  sorted := List.Pairwise.nil
  given := by
    intro row member
    cases member
  attempts := ⟨FirstsInOrder.nil, by simp [Spool.attempts], List.Pairwise.nil,
    by simp [Spool.pending], by simp⟩
  published := ⟨FirstsInOrder.nil, by simp [Spool.published], List.Pairwise.nil,
    by simp [Spool.pending], by simp⟩
  deleting := by simp
  reads := by simp
  evicted := by simp
  calls := by simp

theorem totalBytes_le {rows fewer : List Row} (sub : fewer.Sublist rows) :
    totalBytes fewer ≤ totalBytes rows :=
  (sub.map _).sum_le_sum fun _ _ => Nat.zero_le _

/-- A call is as it was where its row is still placed and no row came in that it has seen. -/
theorem CallOk.mono {s next : Spool} {call : Call} (ok : CallOk s call)
    (placed : ∀ id, Placed s id → Placed next id) (bound : next.maxBytes = s.maxBytes)
    (later : s.lastId ≤ next.lastId)
    (fewer : (next.seenBy call).Sublist (s.seenBy call)) : CallOk next call where
  placed := fun id row => placed id (ok.placed id row)
  inserted := ok.inserted
  bound := by
    rw [bound]
    intro limited back
    have before := ok.bound limited back
    have less := totalBytes_le fewer
    omega
  seen := Nat.le_trans ok.seen later

namespace Inv

variable {s : Spool}

theorem setCall (inv : Inv s) (n : Nat) {call : Call} (ok : CallOk s call) :
    Inv (s.setCall n call) where
  sorted := inv.sorted
  given := inv.given
  attempts := inv.attempts
  published := inv.published
  deleting := inv.deleting
  reads := inv.reads
  evicted := inv.evicted
  calls := by
    intro m other found
    by_cases same : m = n
    · subst same
      rw [setCall_self] at found
      cases found
      exact { ok with }
    · rw [setCall_of_ne _ _ _ same] at found
      exact { inv.calls m other found with }

/-- `enforceBound` returns nil when what it has seen is within the bound. -/
theorem pass (inv : Inv s) (n : Nat) {call : Call} (ok : CallOk s call) (row : call.row ≠ none)
    (bound : 0 < s.maxBytes → (totalBytes s.events : Int) ≤ s.maxBytes) : Inv (s.pass n call) := by
  apply inv.setCall
  constructor
  · exact ok.placed
  · intro _ _ _
    exact row
  · intro limited _
    have total := bound limited
    have less := totalBytes_le (List.filter_sublist (p := fun row => decide (row.id ≤ s.lastId))
      (l := s.events))
    simp only [Spool.seenBy]
    omega
  · exact Nat.le_refl _

theorem fail (inv : Inv s) (n : Nat) {call : Call} (ok : CallOk s call) : Inv (s.fail n call) := by
  apply inv.setCall
  exact ⟨ok.placed, by simp, by simp, ok.seen⟩

/-- A row is added to the table. -/
theorem addRow (inv : Inv s) (size : Nat) :
    Inv { s with
      events := s.events ++ [{ id := s.lastId + 1, size, readable := true }]
      lastId := s.lastId + 1 } where
  sorted := by
    apply List.pairwise_append.2 ⟨inv.sorted, List.pairwise_singleton .., _⟩
    intro row member new isNew
    rw [List.mem_singleton.1 isNew]
    exact Nat.lt_succ_of_le (inv.given row (List.mem_append_left _ member)).1
  given := by
    intro row member
    rcases List.mem_append.1 member with inTable | inBatch
    · rcases List.mem_append.1 inTable with old | new
      · obtain ⟨le, readable⟩ := inv.given row (List.mem_append_left _ old)
        exact ⟨Nat.le_succ_of_le le, readable⟩
      · rw [List.mem_singleton.1 new]
        exact ⟨Nat.le_refl _, rfl⟩
    · obtain ⟨le, readable⟩ := inv.given row (List.mem_append_right _ inBatch)
      exact ⟨Nat.le_succ_of_le le, readable⟩
  attempts := inv.attempts.insert
    (fun row member => (inv.given row (List.mem_append_right _ member)).1) rfl
  published := inv.published.insert
    (fun row member => (inv.given row (List.mem_append_right _ member)).1) rfl
  deleting := inv.deleting
  reads := inv.reads
  evicted := inv.evicted
  calls := by
    intro n call found
    have ok := inv.calls n call found
    apply ok.mono
    · intro id placed
      rcases placed with ⟨row, member, same⟩ | elsewhere
      · exact .inl ⟨row, List.mem_append_left _ member, same⟩
      · exact .inr elsewhere
    · rfl
    · exact Nat.le_succ _
    · have seen := ok.seen
      simp only [Spool.seenBy, List.filter_append]
      rw [List.filter_cons_of_neg, List.filter_nil, List.append_nil]
      simp only [decide_eq_true_eq]
      omega

/-- Rows that are accounted for elsewhere go from the table. -/
theorem removeRows (inv : Inv s) (rows : List Row) (evicted : List (Nat × List Nat))
    (fewer : rows.Sublist s.events)
    (elsewhere : ∀ row ∈ s.events, row ∈ rows ∨ row.id ∈ s.published ∨ ∃ others, (row.id, others) ∈ evicted)
    (oldest : ∀ id others, (id, others) ∈ evicted → ∀ other ∈ others, id ≤ other)
    (kept : s.evicted ⊆ evicted) : Inv { s with events := rows, evicted := evicted } where
  sorted := inv.sorted.sublist fewer
  given := by
    intro row member
    apply inv.given
    rcases List.mem_append.1 member with inTable | inBatch
    · exact List.mem_append_left _ (fewer.subset inTable)
    · exact List.mem_append_right _ inBatch
  attempts := inv.attempts.shrink fewer.subset
  published := inv.published.shrink fewer.subset
  deleting := inv.deleting
  reads := inv.reads
  evicted := oldest
  calls := by
    intro n call found
    apply (inv.calls n call found).mono
    · rintro id (⟨row, member, rfl⟩ | published | ⟨others, before⟩)
      · rcases elsewhere row member with left | gone
        · exact .inl ⟨row, left, rfl⟩
        · exact .inr gone
      · exact .inr (.inl published)
      · exact .inr (.inr ⟨others, kept before⟩)
    · rfl
    · exact Nat.le_refl _
    · exact fewer.filter _

/-! ### The steps -/

theorem enqueue (inv : Inv s) (size : Nat) (marshals : Bool) :
    Inv (step s (.enqueue size marshals)) := by
  have ok : CallOk s { size, phase := if marshals then .inserting else .returned false } := by
    cases marshals with
    | true | false => exact ⟨by simp, by simp, by simp, Nat.zero_le _⟩
  have set := inv.setCall s.issued ok
  exact { set with calls := fun n call found => { set.calls n call found with } }

theorem insert (inv : Inv s) (n : Nat) (done : Bool) : Inv (step s (.insert n done)) := by
  simp only [step]
  split
  · exact inv
  next call here =>
    obtain ⟨found, inserting⟩ := at?_eq_some.1 here
    have ok := inv.calls n call found
    cases done with
    | false => exact inv.fail n ok
    | true =>
      simp only [if_true, Spool.insert]
      have added := inv.addRow call.size
      have call_ok : CallOk { s with
            events := s.events ++ [{ id := s.lastId + 1, size := call.size, readable := true }]
            lastId := s.lastId + 1 }
          { call with row := some (s.lastId + 1), phase := .summing } := by
        constructor
        · intro id row
          cases row
          exact .inl ⟨_, List.mem_append_right _ (List.mem_singleton.2 rfl), rfl⟩
        · simp
        · simp
        · exact Nat.le_succ_of_le ok.seen
      split
      next unlimited =>
        apply added.pass n call_ok (by simp)
        intro limited
        have limited : 0 < s.maxBytes := limited
        omega
      · exact added.setCall n call_ok

theorem sum (inv : Inv s) (n : Nat) (done : Bool) : Inv (step s (.sum n done)) := by
  simp only [step]
  split
  · exact inv
  next call here =>
    obtain ⟨found, summing⟩ := at?_eq_some.1 here
    have ok := inv.calls n call found
    have row := ok.inserted (by simp [summing]) (by simp [summing]) (by simp [summing])
    split
    · split
      · apply inv.setCall
        exact ⟨ok.placed, fun _ _ _ => row, by simp, ok.seen⟩
      next fits =>
        apply inv.pass n ok row
        intro _
        omega
    · exact inv.fail n ok

theorem evict (inv : Inv s) (n : Nat) (done : Bool) : Inv (step s (.evict n done)) := by
  simp only [step]
  split
  · exact inv
  next call here =>
    obtain ⟨found, evicting⟩ := at?_eq_some.1 here
    have ok := inv.calls n call found
    have row := ok.inserted (by simp [evicting]) (by simp [evicting]) (by simp [evicting])
    split
    · unfold Spool.evict
      split
      next empty =>
        apply inv.pass n ok row
        intro limited
        simp only [empty, totalBytes, List.map_nil, List.sum_nil]
        omega
      next oldest rest table =>
        have sorted := inv.sorted
        rw [table] at sorted
        have set : Inv (s.setCall n { call with phase := .summing }) :=
          inv.setCall n ⟨ok.placed, fun _ _ _ => row, by simp, ok.seen⟩
        apply set.removeRows rest (s.evicted ++ [(oldest.id, s.events.map (·.id))])
        · change rest.Sublist s.events
          rw [table]
          exact List.sublist_cons_self ..
        · intro other member
          have member : other ∈ s.events := member
          rw [table] at member
          rcases List.mem_cons.1 member with rfl | later
          · exact .inr (.inr ⟨_, List.mem_append_right _ (List.mem_singleton.2 rfl)⟩)
          · exact .inl later
        · intro id others member other among
          rcases List.mem_append.1 member with before | now
          · exact inv.evicted id others before other among
          · cases List.mem_singleton.1 now
            rw [table] at among
            rcases List.mem_cons.1 among with same | later
            · exact Nat.le_of_eq same.symm
            · obtain ⟨row, member, rfl⟩ := List.mem_map.1 later
              exact Nat.le_of_lt ((List.pairwise_cons.1 sorted).1 row member)
        · intro before member
          exact List.mem_append_left _ member
    · exact inv.fail n ok

theorem back (inv : Inv s) (n : Nat) : Inv (step s (.back n)) := by
  simp only [step]
  split
  · exact inv
  next call here =>
    obtain ⟨found, passing⟩ := at?_eq_some.1 here
    have ok := inv.calls n call found
    have row := ok.inserted (by simp [passing]) (by simp [passing]) (by simp [passing])
    apply inv.setCall
    exact ⟨ok.placed, fun _ _ _ => row, fun limited _ => ok.bound limited (.inl passing), ok.seen⟩

/-- The drain returns, or is gone. -/
theorem stop (inv : Inv s) : Inv { s with drain := none } where
  sorted := inv.sorted
  given := by
    intro row member
    apply inv.given
    simp only [Spool.pending, List.append_nil] at member
    exact List.mem_append_left _ member
  attempts := inv.attempts.stop
  published := inv.published.stop
  deleting := by simp
  reads := by simp
  evicted := inv.evicted
  calls := fun n call found => { inv.calls n call found with }

/-- The drain goes on to the next row of its batch. -/
theorem resume (inv : Inv s) (batch : List Row) (same : s.pending = batch) :
    Inv { s with drain := some (.publishing batch) } := by
  subst same
  exact {
    sorted := inv.sorted
    given := inv.given
    attempts := inv.attempts
    published := inv.published
    deleting := by simp
    reads := by simp
    evicted := inv.evicted
    calls := fun n call found => { inv.calls n call found with } }

theorem query (inv : Inv s) (done : Bool) (rows : Nat) : Inv (step s (.query done rows)) := by
  simp only [step]
  split
  next idle =>
    have empty : s.pending = [] := by simp [Spool.pending, idle]
    have attempts := inv.attempts
    have published := inv.published
    rw [empty] at attempts published
    split
    · exact {
        sorted := inv.sorted
        given := by
          intro row member
          apply inv.given
          rcases List.mem_append.1 member with inTable | inBatch
          · exact List.mem_append_left _ inTable
          · exact List.mem_append_left _ (List.mem_of_mem_take inBatch)
        attempts := attempts.query inv.sorted rows
        published := published.query inv.sorted rows
        deleting := by simp
        reads := by simp
        evicted := inv.evicted
        calls := fun n call found => { inv.calls n call found with } }
    · exact inv
  · exact inv

theorem publish (inv : Inv s) (done : Bool) : Inv (step s (.publish done)) := by
  simp only [step]
  split
  next row batch publishing =>
    have pending : s.pending = row :: batch := by simp [Spool.pending, publishing]
    have attempts := inv.attempts
    have published := inv.published
    rw [pending] at attempts published
    obtain ⟨given, readable⟩ := inv.given row (by simp [pending])
    rw [if_pos readable]
    have rows : ∀ other ∈ s.events ++ batch, other.id ≤ s.lastId ∧ other.readable = true := by
      intro other member
      apply inv.given
      rw [pending]
      rcases List.mem_append.1 member with inTable | inBatch
      · exact List.mem_append_left _ inTable
      · exact List.mem_append_right _ (List.mem_cons_of_mem _ inBatch)
    have attempts_eq : ∀ ok, (s.copies ++ [(row.id, ok)]).map Prod.fst = s.attempts ++ [row.id] := by
      intro ok
      simp [Spool.attempts]
    cases done with
    | true =>
      have published_eq : ((s.copies ++ [(row.id, true)]).filter Prod.snd).map Prod.fst =
          s.published ++ [row.id] := by
        simp [Spool.published]
      exact {
        sorted := inv.sorted
        given := rows
        attempts := by
          have next := attempts.publish given
          rw [← attempts_eq true] at next
          exact next
        published := by
          have next := published.publish given
          rw [← published_eq] at next
          exact next
        deleting := by
          intro other rest now
          cases now
          simp [Spool.published]
        reads := by simp
        evicted := inv.evicted
        calls := by
          intro n call found
          apply (inv.calls n call found).mono
          · rintro id (inTable | before | gone)
            · exact .inl inTable
            · refine .inr (.inl ?_)
              rw [Spool.published, published_eq]
              exact List.mem_append_left _ before
            · exact .inr (.inr gone)
          · rfl
          · exact Nat.le_refl _
          · exact List.Sublist.refl _ }
    | false =>
      have published_eq : ((s.copies ++ [(row.id, false)]).filter Prod.snd).map Prod.fst =
          s.published := by
        simp [Spool.published]
      exact {
        sorted := inv.sorted
        given := by
          intro other member
          apply rows
          exact List.mem_append_left _ (by simpa [Spool.pending] using member)
        attempts := by
          have next := (attempts.publish given).stop
          rw [← attempts_eq false] at next
          exact next
        published := by
          have next := published.stop
          rw [← published_eq] at next
          exact next
        deleting := by simp
        reads := by simp
        evicted := inv.evicted
        calls := by
          intro n call found
          apply (inv.calls n call found).mono
          · rintro id (inTable | before | gone)
            · exact .inl inTable
            · refine .inr (.inl ?_)
              rw [Spool.published, published_eq]
              exact before
            · exact .inr (.inr gone)
          · rfl
          · exact Nat.le_refl _
          · exact List.Sublist.refl _ }
  · exact inv

theorem delete (inv : Inv s) (done : Bool) : Inv (step s (.delete done)) := by
  simp only [step]
  split
  next row batch deleting =>
    split
    · have published := inv.deleting row batch deleting
      have removed : Inv (s.deleteRow row) := by
        apply inv.removeRows _ s.evicted List.filter_sublist
        · intro other member
          by_cases same : other.id = row.id
          · exact .inr (.inl (same ▸ published))
          · exact .inl (List.mem_filter.2 ⟨member, by simpa using same⟩)
        · exact inv.evicted
        · exact fun _ member => member
      apply removed.resume batch
      simp [Spool.pending, Spool.deleteRow, deleting]
    · exact inv.stop
  next row batch dropping => exact absurd dropping (inv.reads row batch)
  · exact inv

theorem crash (inv : Inv s) : Inv (step s .crash) := by
  have calls : ∀ n call, (s.calls n).map (·.crash) = some call → CallOk s call := by
    intro n call found
    obtain ⟨before, there, rfl⟩ := Option.map_eq_some_iff.1 found
    have ok := inv.calls n before there
    unfold Call.crash
    split
    · exact ok
    · exact ⟨ok.placed, by simp, by simp, ok.seen⟩
  exact { inv.stop with calls := fun n call found => { calls n call found with } }

/-- Every step keeps the invariant. -/
theorem step (inv : Inv s) (op : Op) : Inv (step s op) := by
  cases op with
  | enqueue size marshals => exact inv.enqueue size marshals
  | insert n done => exact inv.insert n done
  | sum n done => exact inv.sum n done
  | evict n done => exact inv.evict n done
  | back n => exact inv.back n
  | query done rows => exact inv.query done rows
  | publish done => exact inv.publish done
  | delete done => exact inv.delete done
  | finish =>
    simp only [Helixd.step]
    split
    · exact inv.stop
    · exact inv
  | crash => exact inv.crash

end Inv

theorem run_inv (maxBytes : Int) (ops : List Op) : Inv (run step { maxBytes } ops) := by
  have along : Along step (fun _ _ => True) { maxBytes } ops := Along.of_forall fun _ _ _ => trivial
  exact along.invariant Inv (fun _ op inv _ => inv.step op) (inv_start maxBytes)

/-- What the spool keeps in every interleaving, with failures and crashes anywhere. -/
theorem spool_kept (maxBytes : Int) (ops : List Op) : Kept (run step { maxBytes } ops) := by
  have inv := run_inv maxBytes ops
  exact {
    attempts := inv.attempts.order
    published := inv.published.order
    accounted := by
      intro n call found returned
      have ok := inv.calls n call found
      obtain ⟨id, row⟩ := Option.ne_none_iff_exists'.1
        (ok.inserted (by simp [returned]) (by simp [returned]) (by simp [returned]))
      refine ⟨id, row, ?_⟩
      rcases ok.placed id row with inTable | published | ⟨others, evicted⟩
      · exact .inl inTable
      · exact .inr (.inl published)
      · exact .inr (.inr ⟨others, evicted, inv.evicted id others evicted⟩)
    bound := fun limited n call found returned =>
      (inv.calls n call found).bound limited (.inr returned) }

/-- Two calls at once: between the last statement of one and its return the other inserts. -/
theorem overlapping_exceeds :
    ¬ ∀ maxBytes ops n, 0 < maxBytes →
      ((run step { maxBytes } ops).calls n).map (·.phase) = some .passing →
      (totalBytes (step (run step { maxBytes } ops) (.back n)).events : Int) ≤ maxBytes := by
  intro all
  have within := all 1 [.enqueue 1 true, .insert 0 true, .sum 0 true, .enqueue 1 true, .insert 1 true] 0
    (by decide) rfl
  exact absurd within (by decide)

end HelixKit.Helixd
