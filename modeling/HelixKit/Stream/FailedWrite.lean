/-
Purpose: A failed transport write ends a Go session: the goroutines come to rest, every stream torn
  down and every call returned.
Trusted boundary: none
Main exports: failed_write_ends_one
-/
import HelixKit.Stream.AtRest

namespace HelixKit.Stream.Failing

open HelixKit.Runs

/-! ### The work that is left -/

/-- A bound on the steps that a job takes. -/
def Job.weight : Job → Nat
  | .openStream _ => 12
  | .openFrame _ _ | .read _ _ | .onStream _ .closeWrite => 6
  | .writeFrame _ _ _ | .onStream _ (.teardown _) => 5
  | .closeWithErr _ => 4
  | .onStream _ (.write p) => 2 * p.length + 1
  | .onStream _ (.writing p) => 2 * p.length
  | _ => 1

def weights (jobs : List Job) : Nat := (jobs.map Job.weight).sum

/-- Every registered stream may yet be torn down. -/
def Core.weight (c : Core) : Nat := 5 * c.session.streams.entries.length

def Process.weight (p : Process) : Nat := weights p.jobs + p.core.weight

@[simp] theorem weights_nil : weights [] = 0 := rfl

@[simp] theorem weights_cons (job : Job) (jobs : List Job) :
    weights (job :: jobs) = job.weight + weights jobs := by
  simp [weights]

@[simp] theorem weights_append (jobs more : List Job) :
    weights (jobs ++ more) = weights jobs + weights more := by
  simp [weights]

theorem weights_perm {jobs more : List Job} (same : jobs.Perm more) :
    weights jobs = weights more :=
  (same.map Job.weight).sum_nat

/-- A `Write` that holds the send mutex has bytes and window to send. -/
def Progresses (c : Core) : Job → Prop
  | .onStream r (.writing p) =>
    p ≠ [] ∧ 0 < c.session.maxChunk ∧ ∀ st, c.heap r = some st → 0 < st.window
  | _ => True

variable {c : Core} {outcome : Outcome}

variable {r : Ref}

theorem critical_lowers {op : StreamOp}
    (noTeardown : ∀ err, op ≠ .teardown err) (progresses : Progresses c (.onStream r op))
    (ran : c.critical r op = some outcome) :
    weights outcome.continues + outcome.after.weight <
      (Job.onStream r op).weight + c.weight := by
  obtain ⟨st, effect, present, exec, after, continues, -⟩ := critical_cases ran
  have same : outcome.after.weight = c.weight := by
    rw [after]
    rfl
  rw [continues, same]
  cases op with
  | write p | closeWrite =>
    simp only [GoStream.exec] at exec
    split at exec
    · cases exec
    · split at exec <;> cases exec <;> simp [Job.weight]
  | writing p =>
    obtain ⟨some_, chunks, window⟩ := progresses
    have window := window st present
    have length : 0 < p.length := List.length_pos_of_ne_nil some_
    have sends : 0 < st.chunk c.session.maxChunk p := by
      simp only [GoStream.chunk]
      omega
    simp only [GoStream.exec, Bool.false_eq_true, if_false] at exec
    split at exec <;> cases exec <;> simp [Job.weight] <;> omega
  | teardown err => exact absurd rfl (noTeardown err)
  | _ =>
    simp only [GoStream.exec] at exec
    (repeat' split at exec) <;> first | contradiction | (cases exec; simp [Job.weight])

theorem send_lowers (c : Core) (delivered : Bool) (later : List Job) :
    weights (c.send delivered later).continues + (c.send delivered later).after.weight ≤
      4 + weights later + c.weight := by
  unfold Core.send
  split
  · simp
  · simp [Job.weight, Core.weight]

theorem entries_erase_le (streams : AList fun _ : UInt32 => Ref) (id : UInt32) :
    (streams.erase id).entries.length ≤ streams.entries.length :=
  (List.kerase_sublist id streams.entries).length_le

variable {delivered : Bool}

variable {job : Job}

/-- Every job leaves less work than there was. -/
theorem exec_lowers (sound : JobSound c delivered job) (progresses : Progresses c job)
    (ran : c.exec delivered job = some outcome) :
    weights outcome.continues + outcome.after.weight < job.weight + c.weight := by
  cases job with
  | openStream openMeta =>
    simp only [Core.exec] at ran
    split at ran <;> cases ran
    · simp [Job.weight]
    · have : (c.session.streams.entries.kerase c.session.nextID).length ≤ _ :=
        entries_erase_le c.session.streams c.session.nextID
      simp [Job.weight, Core.weight, Core.create, Core.setStream]
      omega
  | openFrame r openMeta =>
    cases ran
    have := send_lowers c delivered [.removeStream r.id]
    simp [Job.weight] at this ⊢
    omega
  | accept | acceptSend r =>
    simp only [Core.exec] at ran
    split at ran
    · cases ran
      simp [Job.weight, Core.weight]
    · split at ran <;> cases ran
      simp [Job.weight]
  | read r n =>
    simp only [Core.exec, Option.bind_eq_some_iff, Option.map_eq_some_iff] at ran
    obtain ⟨st, -, taken, -, rfl⟩ := ran
    split <;> simp [Job.weight, Core.weight, Core.setStream]
  | onStream r op =>
    cases op with
    | writing p =>
      obtain ⟨rfl, isOpen⟩ := sound
      simp only [Core.exec, isOpen, Bool.not_false, Bool.and_self, if_true] at ran
      exact critical_lowers (by simp) progresses ran
    | teardown err =>
      simp only [Core.exec, Core.teardown] at ran
      split at ran
      · cases ran
      · obtain ⟨st, -, rfl⟩ := Option.map_eq_some_iff.mp ran
        split <;> simp [Job.weight, Core.weight, Core.setStream]
    | _ => exact critical_lowers (by simp) progresses ran
  | writeFailed r =>
    simp only [Core.exec, Option.map_eq_some_iff] at ran
    obtain ⟨st, -, rfl⟩ := ran
    simp [Job.weight, Core.weight, Core.setStream]
  | writeFrame type id payload =>
    cases ran
    have := send_lowers c delivered []
    simp [Job.weight] at this ⊢
    omega
  | closeWithErr err =>
    simp only [Core.exec] at ran
    split at ran <;> cases ran <;> simp [Job.weight, Core.weight]
  | dropStreams err =>
    cases ran
    simp [weights, Job.weight, Core.weight, Function.comp_def]
    omega
  | removeStream id =>
    cases ran
    have := entries_erase_le c.session.streams id
    simp [Job.weight, Core.weight]
    omega
  | _ =>
    cases ran
    simp [Job.weight, Core.weight]

/-! ### Writers -/

/-- The job is a `Write` that holds the send mutex of `r`. -/
def Job.writes (r : Ref) : Job → Bool
  | .onStream other (.writing _) => other = r
  | _ => false

def Core.writers (c : Core) (r : Ref) : Nat :=
  match c.heap r with
  | some st => st.smu.toNat
  | none => 0

/-- One `Write` at a time holds a send mutex, and has bytes and window to
send. -/
structure Paced (c : Core) (jobs : List Job) : Prop where
  chunks : 0 < c.session.maxChunk
  fresh : ∀ r, (c.heap r).isSome → r.gen < c.gens r.id
  windows : ∀ r st, c.heap r = some st → 0 ≤ st.window
  writers : ∀ r, jobs.countP (Job.writes r) = c.writers r
  ready : ∀ r p, Job.onStream r (.writing p) ∈ jobs →
    p ≠ [] ∧ ∀ st, c.heap r = some st → 0 < st.window

theorem paced_start (cfg : Config) : Paced { session := newSession cfg } [] := by
  constructor
  · simp only [newSession]
    split <;> omega
  all_goals simp [Core.writers]

theorem Paced.perm {jobs more : List Job} (paced : Paced c jobs)
    (same : jobs.Perm more) : Paced c more where
  chunks := paced.chunks
  fresh := paced.fresh
  windows := paced.windows
  writers r := (same.countP_eq _).symm.trans (paced.writers r)
  ready r p isIn := paced.ready r p (same.mem_iff.mpr isIn)

/-- Jobs that are no writers may take each other's place. -/
theorem Paced.replace {c : Core} {others : List Job} (old more : List Job) (paced : Paced c (old ++ others))
    (oldQuiet : ∀ job ∈ old, ∀ r, job.writes r = false)
    (moreQuiet : ∀ job ∈ more, ∀ r, job.writes r = false) : Paced c (more ++ others) where
  chunks := paced.chunks
  fresh := paced.fresh
  windows := paced.windows
  writers r := by
    have none (jobs : List Job) (quiet : ∀ job ∈ jobs, ∀ r, job.writes r = false) :
        jobs.countP (Job.writes r) = 0 :=
      List.countP_eq_zero.mpr fun job isIn => by simp [quiet job isIn r]
    have before := paced.writers r
    rw [List.countP_append, none old oldQuiet] at before
    rw [List.countP_append, none more moreQuiet, before]
  ready r p isIn := by
    rcases List.mem_append.mp isIn with new | kept
    · simpa [Job.writes] using moreQuiet _ new r
    · exact paced.ready r p (List.mem_append_right _ kept)

theorem Paced.setStream {jobs : List Job} {st now : GoStream}
    (paced : Paced c jobs) (present : c.heap r = some st) (smu : now.smu = st.smu)
    (window : st.window ≤ now.window) : Paced (c.setStream r now) jobs where
  chunks := paced.chunks
  fresh other isSome := by
    by_cases own : other = r
    · exact paced.fresh other (by simp [own, present])
    · exact paced.fresh other (by simpa [Core.setStream, own] using isSome)
  windows other found isIn := by
    by_cases own : other = r
    · simp only [Core.setStream, own, Function.update_self, Option.some.injEq] at isIn
      exact isIn ▸ (paced.windows r st present).trans window
    · exact paced.windows other found (by simpa [Core.setStream, own] using isIn)
  writers other := by
    rw [paced.writers other]
    by_cases own : other = r
    · simp [Core.writers, Core.setStream, own, present, smu]
    · simp [Core.writers, Core.setStream, own]
  ready other p isIn := by
    obtain ⟨bytes, before⟩ := paced.ready other p isIn
    refine ⟨bytes, ?_⟩
    intro found is
    by_cases own : other = r
    · simp only [Core.setStream, own, Function.update_self, Option.some.injEq] at is
      exact is ▸ (before st (own ▸ present)).trans_le window
    · exact before found (by simpa [Core.setStream, own] using is)

/-- A `Write` takes the send mutex, goes on with it, or leaves it. -/
theorem Paced.hold {others : List Job} {st : GoStream} {op : StreamOp}
    (now : GoStream) (ops : List StreamOp) (paced : Paced c (.onStream r op :: others))
    (present : c.heap r = some st) (alone : others.countP (Job.writes r) = 0)
    (holds : (ops.map (Job.onStream r)).countP (Job.writes r) = now.smu.toNat)
    (window : 0 ≤ now.window) (ready : ∀ p, StreamOp.writing p ∈ ops → p ≠ [] ∧ 0 < now.window) :
    Paced (c.setStream r now) (ops.map (.onStream r) ++ others) where
  chunks := paced.chunks
  fresh other isSome := by
    by_cases own : other = r
    · exact paced.fresh other (by simp [own, present])
    · exact paced.fresh other (by simpa [Core.setStream, own] using isSome)
  windows other found isIn := by
    by_cases own : other = r
    · simp only [Core.setStream, own, Function.update_self, Option.some.injEq] at isIn
      exact isIn ▸ window
    · exact paced.windows other found (by simpa [Core.setStream, own] using isIn)
  writers other := by
    by_cases own : other = r
    · subst own
      simp [List.countP_append, holds, alone, Core.writers, Core.setStream]
    · have foreign (op : StreamOp) : Job.writes other (.onStream r op) = false := by
        cases op <;> simp [Job.writes, Ne.symm own]
      have before := paced.writers other
      rw [List.countP_cons_of_neg (by simp [foreign])] at before
      rw [List.countP_append, List.countP_eq_zero.mpr, before]
      · simp [Core.writers, Core.setStream, own]
      · intro job isIn
        obtain ⟨op, -, rfl⟩ := List.mem_map.mp isIn
        simp [foreign]
  ready other p isIn := by
    rcases List.mem_append.mp isIn with new | kept
    · obtain ⟨op, isOp, is⟩ := List.mem_map.mp new
      cases is
      obtain ⟨bytes, window⟩ := ready p isOp
      refine ⟨bytes, ?_⟩
      intro found is
      simp only [Core.setStream, Function.update_self, Option.some.injEq] at is
      exact is ▸ window
    · obtain ⟨bytes, before⟩ := paced.ready other p (List.mem_cons_of_mem _ kept)
      refine ⟨bytes, ?_⟩
      intro found is
      have own : other ≠ r := by
        rintro rfl
        have := List.countP_eq_zero.mp alone _ kept
        simp [Job.writes] at this
      exact before found (by simpa [Core.setStream, own] using is)

theorem Paced.create {jobs : List Job} (paced : Paced c jobs) (id : UInt32)
    (openMeta : Bytes) : Paced (c.create id openMeta) jobs := by
  have unused : c.heap { id, gen := c.gens id } = none := by
    by_contra used
    have := paced.fresh _ (Option.isSome_iff_ne_none.mpr used)
    simp at this
  constructor
  · exact paced.chunks
  · intro r isSome
    by_cases own : r = { id, gen := c.gens id }
    · simp [own, Core.create]
    have := paced.fresh r (by simpa [Core.create, Core.setStream, own] using isSome)
    by_cases same : r.id = id
    · simp only [Core.create, same, Function.update_self]
      rw [same] at this
      omega
    · simpa [Core.create, same] using this
  · intro r st present
    by_cases own : r = { id, gen := c.gens id }
    · simp only [own, Core.create, Core.setStream, Function.update_self,
        Option.some.injEq] at present
      simp [← present, newStream]
    · exact paced.windows r st (by simpa [Core.create, Core.setStream, own] using present)
  · intro r
    rw [paced.writers r]
    by_cases own : r = { id, gen := c.gens id }
    · simp [Core.writers, Core.create, Core.setStream, own, unused, newStream]
    · simp [Core.writers, Core.create, Core.setStream, own]
  · intro r p isIn
    obtain ⟨bytes, before⟩ := paced.ready r p isIn
    refine ⟨bytes, ?_⟩
    intro st present
    by_cases own : r = { id, gen := c.gens id }
    · have none := paced.writers r
      simp only [Core.writers, own, unused] at none
      have := List.countP_eq_zero.mp none _ isIn
      simp [Job.writes, own] at this
    · exact before st (by simpa [Core.create, Core.setStream, own] using present)

theorem writeNext_sends {st : GoStream} {p : Bytes} (window : 0 ≤ st.window)
    (sends : st.writeNext p = .sends) : p ≠ [] ∧ 0 < st.window := by
  simp only [GoStream.writeNext] at sends
  split at sends
  · cases sends
  split at sends
  · cases sends
  split at sends
  · cases sends
  next some_ waits fails =>
    refine ⟨some_, ?_⟩
    by_contra shut
    apply waits
    refine ⟨by omega, ?_, ?_⟩
    · by_contra failed
      exact fails (Or.inl failed)
    · by_contra sdone
      exact fails (Or.inr (by simpa using sdone))

theorem Paced.critical {others : List Job} {op : StreamOp}
    (paced : Paced c (.onStream r op :: others))
    (noTeardown : ∀ err, op ≠ .teardown err) (ran : c.critical r op = some outcome) :
    Paced outcome.after (outcome.continues ++ others) := by
  obtain ⟨st, effect, present, exec, after, continues, -⟩ := critical_cases ran
  have window := paced.windows r st present
  have writers := paced.writers r
  simp only [Core.writers, present] at writers
  rw [after, continues]
  suffices updated : Paced (c.setStream r effect.stream)
      ((effect.continues.map (.onStream r) ++
        if effect.sendEnd then [.writeFrame .fEnd r.id []] else []) ++ others) from
    { updated with }
  cases op with
  | write p =>
    simp only [GoStream.exec] at exec
    split at exec
    · cases exec
    next isFree =>
      simp only [isFree, Bool.toNat_false] at writers
      rw [List.countP_cons_of_neg (by simp [Job.writes])] at writers
      split at exec <;> cases exec
      · have done := Paced.replace [.onStream r (.write p)] []
          (paced.setStream present rfl le_rfl) (by simp [Job.writes]) (by simp)
        simpa using done
      next sends =>
        have held := paced.hold { st with smu := true } [.writing p] present writers
          (by simp [Job.writes]) window (by simpa using writeNext_sends window sends)
        simpa using held
  | writing p =>
    have locked : st.smu = true := by
      rw [List.countP_cons_of_pos (by simp [Job.writes])] at writers
      cases is : st.smu <;> simp_all
    have alone : others.countP (Job.writes r) = 0 := by
      rw [List.countP_cons_of_pos (by simp [Job.writes]), locked] at writers
      simpa using writers
    have left : 0 ≤ st.window - st.chunk c.session.maxChunk p := by
      simp only [GoStream.chunk]
      omega
    simp only [GoStream.exec, Bool.false_eq_true, if_false] at exec
    split at exec <;> cases exec
    · have held := paced.hold
        { st with window := st.window - st.chunk c.session.maxChunk p, smu := false } []
        present alone (by simp) left (by simp)
      simpa using held
    · have held := paced.hold
        { st with window := st.window - st.chunk c.session.maxChunk p, smu := false }
        [.write (p.drop (st.chunk c.session.maxChunk p))]
        present alone (by simp [Job.writes]) left (by simp)
      simpa using held
    next sends =>
      have held := paced.hold
        { st with window := st.window - st.chunk c.session.maxChunk p }
        [.writing (p.drop (st.chunk c.session.maxChunk p))]
        present alone (by simp [Job.writes, locked]) left
        (by simpa using writeNext_sends left sends)
      simpa using held
  | teardown err => exact absurd rfl (noTeardown err)
  | _ =>
    apply Paced.replace [.onStream r _]
    · apply paced.setStream present
      · simp only [GoStream.exec] at exec
        (repeat' split at exec) <;> first | contradiction | (cases exec; rfl)
      · simp only [GoStream.exec] at exec
        (repeat' split at exec) <;> first | contradiction | (cases exec; simp)
    · simp [Job.writes]
    · simp only [GoStream.exec] at exec
      (repeat' split at exec) <;>
        first | contradiction | (cases exec; simp [Job.writes])

theorem Paced.send {others later : List Job}
    (paced : Paced c (job :: others)) (quiet : ∀ r, job.writes r = false)
    (laterQuiet : ∀ next ∈ later, ∀ r, next.writes r = false) :
    Paced (c.send delivered later).after ((c.send delivered later).continues ++ others) := by
  unfold Core.send
  split
  · exact Paced.replace [job] [] paced (by simpa using quiet) (by simp)
  · have replaced := Paced.replace [job] (.closeWithErr .transport :: later) paced
      (by simpa using quiet) (by simpa [Job.writes] using laterQuiet)
    exact { replaced with }

theorem Paced.exec {others : List Job} (paced : Paced c (job :: others)) (sound : JobSound c delivered job)
    (written : ∀ r, job ≠ .writeFailed r) (ran : c.exec delivered job = some outcome) :
    Paced outcome.after (outcome.continues ++ others) := by
  cases job with
  | openStream openMeta =>
    simp only [Core.exec] at ran
    split at ran <;> cases ran
    · exact Paced.replace [.openStream openMeta] [] paced (by simp [Job.writes]) (by simp)
    · have replaced := Paced.replace [.openStream openMeta]
        [.openFrame { id := c.session.nextID, gen := c.gens c.session.nextID } openMeta]
        (paced.create c.session.nextID openMeta) (by simp [Job.writes]) (by simp [Job.writes])
      exact { replaced with }
  | openFrame r openMeta | writeFrame type id payload =>
    cases ran
    exact paced.send (by simp [Job.writes]) (by simp [Job.writes])
  | accept =>
    simp only [Core.exec] at ran
    have replaced := Paced.replace [.accept] [] paced (by simp [Job.writes]) (by simp)
    split at ran
    · cases ran
      exact { replaced with }
    · split at ran <;> cases ran
      exact replaced
  | read r n =>
    simp only [Core.exec, Option.bind_eq_some_iff, Option.map_eq_some_iff] at ran
    obtain ⟨st, present, taken, read, rfl⟩ := ran
    apply Paced.replace [.read r n]
    · apply paced.setStream present
      · simp only [GoStream.read] at read
        (repeat' split at read) <;> first | contradiction | (cases read; rfl)
      · simp only [GoStream.read] at read
        (repeat' split at read) <;> first | contradiction | (cases read; exact le_rfl)
    · simp [Job.writes]
    · intro job isIn other
      split at isIn <;> simp_all [Job.writes]
  | onStream r op =>
    cases op with
    | writing p =>
      obtain ⟨rfl, isOpen⟩ := sound
      simp only [Core.exec, isOpen, Bool.not_false, Bool.and_self, if_true] at ran
      exact paced.critical (by simp) ran
    | teardown err =>
      simp only [Core.exec, Core.teardown] at ran
      split at ran
      · cases ran
      obtain ⟨st, present, rfl⟩ := Option.map_eq_some_iff.mp ran
      split
      · exact Paced.replace [.onStream r (.teardown err)] [] paced (by simp [Job.writes])
          (by simp)
      have begun : Paced (c.setStream r { st with closeOnce := true }) _ :=
        paced.setStream present rfl le_rfl
      have replaced := Paced.replace [.onStream r (.teardown err)]
        [.onStream r (.teardownRecv err), .onStream r (.teardownSend err),
          .onStream r .closeSignals, .teardownDone r]
        begun (by simp [Job.writes]) (by simp [Job.writes])
      exact { replaced with }
    | _ => exact paced.critical (by simp) ran
  | writeFailed r => exact absurd rfl (written r)
  | closeWithErr err =>
    simp only [Core.exec] at ran
    split at ran <;> cases ran
    · exact Paced.replace [.closeWithErr err] [] paced (by simp [Job.writes]) (by simp)
    · have replaced := Paced.replace [.closeWithErr err]
        [.dropStreams err, .closeTransport, .closeDone] paced (by simp [Job.writes])
        (by simp [Job.writes])
      exact { replaced with }
  | dropStreams err =>
    cases ran
    have replaced := Paced.replace [.dropStreams err]
      (c.session.streams.entries.map fun entry => .onStream entry.2 (.teardown err)) paced
      (by simp [Job.writes]) (by
        intro job isIn r
        obtain ⟨entry, -, rfl⟩ := List.mem_map.mp isIn
        rfl)
    exact { replaced with }
  | acceptSend r =>
    simp only [Core.exec] at ran
    have replaced := Paced.replace [.acceptSend r] [] paced (by simp [Job.writes]) (by simp)
    split at ran
    · cases ran
      exact { replaced with }
    · split at ran <;> cases ran
      exact replaced
  | _ =>
    cases ran
    have replaced := Paced.replace [_] [] paced (by simp [Job.writes]) (by simp)
    exact { replaced with }

/-! ### Runs -/

structure Bounded (p : Process) : Prop where
  inv : Inv p
  paced : Paced p.core p.jobs

theorem bounded_start (cfg : Config) : Bounded (newProcess cfg) where
  inv := inv_start cfg
  paced := paced_start cfg

/-- A step of a goroutine leaves less work. -/
theorem Bounded.ran {p q : Process} (bounded : Bounded p) (ran : Ran p q) :
    Bounded q ∧ q.weight < p.weight := by
  have inv := bounded.inv.ran ran
  obtain @⟨before, after, job, rest, delivered, outcome, was, isNow, core, honest, sound, ran⟩ :=
    ran
  have jobs : p.jobs.Perm (job :: (before.flatten ++ rest ++ after.flatten)) := by
    simp only [Process.jobs, was, List.flatten_append, List.flatten_cons, List.append_assoc,
      List.cons_append]
    exact List.perm_middle
  have jobsNow : (outcome.continues ++ (before.flatten ++ rest ++ after.flatten)).Perm q.jobs := by
    simp only [Process.jobs, isNow, List.flatten_append, List.flatten_cons, List.append_assoc]
    rw [← List.append_assoc, ← List.append_assoc before.flatten]
    exact List.perm_append_comm.append_right _
  have isIn : job ∈ p.jobs := jobs.mem_iff.mpr List.mem_cons_self
  refine ⟨⟨inv, ?_⟩, ?_⟩
  · rw [core]
    apply Paced.perm _ jobsNow
    apply (bounded.paced.perm jobs).exec sound _ ran
    intro r is
    exact bounded.inv.coherent.written r (is ▸ isIn)
  · have progresses : Progresses p.core job := by
      cases job with
      | onStream r op =>
        cases op with
        | writing bytes =>
          obtain ⟨some_, window⟩ := bounded.paced.ready r bytes isIn
          exact ⟨some_, bounded.paced.chunks, window⟩
        | _ => trivial
      | _ => trivial
    have lowers := exec_lowers sound progresses ran
    have total := weights_perm jobs
    have totalNow := weights_perm jobsNow
    simp only [weights_append, weights_cons] at total totalNow
    simp only [Process.weight, core]
    omega

theorem Fresh.quiet {more : List Job} (fresh : Fresh c more) :
    ∀ job ∈ more, ∀ r, job.writes r = false := by
  intro job isIn r
  have begins := fresh.begins job isIn
  cases job with
  | onStream other op =>
    cases op with
    | writing p => exact absurd trivial begins
    | _ => rfl
  | _ => rfl

theorem Bounded.begins {p q : Process} (bounded : Bounded p) (begins : Begins p q) :
    Bounded q := by
  refine ⟨bounded.inv.begins begins, ?_⟩
  cases begins with
  | nothing => exact bounded.paced
  | call call fresh =>
    have added := Paced.replace [] call.jobs bounded.paced (by simp) fresh.quiet
    apply added.perm
    simp only [Process.jobs, Process.stacks, List.map_append, List.map_cons, List.map_nil,
      List.flatten_cons, List.flatten_append, List.flatten_nil, List.append_nil]
    rw [← List.append_assoc]
    exact List.perm_append_comm
  | load more ended idle fresh =>
    have added := Paced.replace [] more bounded.paced (by simp) fresh.quiet
    simpa [Process.jobs, Process.stacks, idle] using added
  | create id openMeta idle spare streams =>
    have added := Paced.replace [] [.acceptSend { id, gen := p.core.gens id }]
      (bounded.paced.create id openMeta) (by simp) (by simp [Job.writes])
    simpa [Process.jobs, Process.stacks, idle] using added

theorem Bounded.step {p : Process} {event : Event} (bounded : Bounded p)
    (sound : Sound p event) : Bounded (step p event) := by
  by_cases runs : Runs p event
  · exact (bounded.ran (step_ran bounded.inv.coherent.running sound runs)).1
  · apply bounded.begins
    apply step_begins bounded.inv.coherent.running _ sound runs
    exact fun id r found => (bounded.inv.coherent.registered id r found).2

variable {p : Process}

theorem run_bounded {events : List Event} (start : Bounded p)
    (sound : Along step Sound p events) : Bounded (run step p events) :=
  sound.invariant Bounded (fun _ _ bounded => bounded.step) start

/-- The goroutines come to rest: they go on for so many steps at most. -/
def ComesToRest (p : Process) : Prop :=
  ∃ bound, ∀ events : List Event,
    Along step (fun q event => Sound q event ∧ Runs q event) p events → events.length ≤ bound

theorem Bounded.comes_to_rest (bounded : Bounded p) : ComesToRest p := by
  refine ⟨p.weight, ?_⟩
  intro events along
  apply along.bounded Bounded Process.weight
  · rintro q event isBounded ⟨sound, -⟩
    exact isBounded.step sound
  · rintro q event isBounded ⟨sound, runs⟩
    exact (isBounded.ran (step_ran isBounded.inv.coherent.running sound runs)).2
  · exact bounded

/-! ### A failed write ends the session -/

/-- No goroutine is about to take a lock that it holds, and once a write has
failed the goroutines come to rest, where the session has ended. -/
structure FailsWell (p : Process) : Prop where
  locks : ∀ stack ∈ p.stacks, ¬ SelfLock stack
  rests : ComesToRest p
  ends : p.core.failed = true → Quiescent p → Ended p

/-- A session fails well in every run in which the transport refuses no DATA
frame, no OPEN comes after `closeWithErr` has dropped the streams, no stream is
replaced or removed that nobody tears down, and no signal comes for a closed
channel. -/
theorem failed_write_ends (cfg : Config) (events : List Event)
    (sound : Along step Sound (newProcess cfg) events) :
    FailsWell (run step (newProcess cfg) events) := by
  have bounded := run_bounded (bounded_start cfg) sound
  constructor
  · intro stack isIn
    apply no_self_lock (bounded.inv.ordered stack isIn)
    intro r written
    exact bounded.inv.coherent.written r (List.mem_flatten.mpr ⟨stack, isIn, written⟩)
  · exact bounded.comes_to_rest
  · exact fun failed rest => bounded.inv.ended rest failed

/-- No condition is laid on the job. -/
def Job.easy : Job → Bool
  | .onStream _ (.writing _) | .onStream _ (.onSignal _) => false
  | .openStream _ | .removeStream _ => false
  | _ => true

theorem sound_easy {n : Nat}
    (easy : ((p.threads[n]?.bind fun g => g.jobs.head?).map Job.easy) = some true) :
    Sound p (.step n delivered) := by
  intro g job rest found jobs
  simp only [found, Option.bind_some, jobs, List.head?_cons, Option.map_some,
    Option.some.injEq] at easy
  unfold JobSound
  split <;> trivial

/-- The client opens a stream, whose OPEN goes out. -/
def opening : List Event := [.call (.openStream []), .step 0 true, .step 0 true]

/-- The END of a `CloseWrite` fails, and the session ends. -/
theorem failed_write_ends_one :
    FailsWell
      (run step (newProcess { client := true })
        (opening ++
          [.call (.closeWrite { id := 1 }), .step 1 true, .step 1 false, .step 1 true,
            .step 1 true, .step 1 true, .step 1 true, .step 1 true, .step 1 true,
            .step 1 true, .step 1 true, .step 1 true])) := by
  apply failed_write_ends
  refine ⟨trivial, ?_, sound_easy (by decide), trivial, sound_easy (by decide),
    sound_easy (by decide), sound_easy (by decide),
    sound_easy (by decide), sound_easy (by decide),
    sound_easy (by decide), sound_easy (by decide),
    sound_easy (by decide), sound_easy (by decide),
    sound_easy (by decide), sound_easy (by decide), trivial⟩
  intro g job rest found jobs
  have found : some g = some { call := .openStream [], jobs := [.openStream []] } :=
    found.symm.trans (by decide)
  cases found
  cases jobs
  intro _ r st registered
  have unused : (some r : Option Ref) = none := registered.symm.trans (by decide)
  cases unused

/-- The DATA frame of a `Write` fails: its goroutine tears the stream down with
the send mutex held, and waits for itself. -/
theorem failed_write_ends_fails :
    ¬ FailsWell
        (run step (newProcess { client := true })
          (opening ++
            [.call (.write { id := 1 } [0x58]), .step 1 true, .step 1 false, .step 1 true,
              .step 1 true, .step 1 true, .step 1 true])) := by
  intro well
  let r : Ref := { id := 1 }
  apply well.locks
    [.onStream r (.teardownSend .transport), .onStream r .closeSignals, .teardownDone r,
      .closeTransport, .closeDone, .writeFailed r]
  · decide
  · exact ⟨.writeFailed r, by simp, rfl, rfl⟩

end HelixKit.Stream.Failing
