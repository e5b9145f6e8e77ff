/-
Purpose: What a Go session owes after a failed transport write: whatever a
  goroutine has begun is the remaining work of some goroutine, and every job
  that goes right leaves it so.
Trusted boundary: none
-/
import HelixKit.Stream.FailingSession

namespace HelixKit.Stream.Failing

open HelixKit.Runs

/-! ### Sound runs -/

/-- No stream is registered under the id but one whose teardown has begun. -/
def Core.Spare (c : Core) (id : UInt32) : Prop :=
  ∀ r st, c.session.streams.lookup id = some r → c.heap r = some st → st.closeOnce = true

/-- The job is none of those that go wrong: a DATA frame that the transport
refuses, a signal for a closed channel, and the replacement or removal of a
stream that nobody tears down. -/
def JobSound (c : Core) (delivered : Bool) : Job → Prop
  | .onStream _ (.writing _) => delivered = true ∧ c.transportClosed = false
  | .onStream r (.onSignal _) => ∀ st, c.heap r = some st → st.signalsClosed = false
  | .openStream _ => c.session.closed = false → c.Spare c.session.nextID
  | .removeStream id => c.Spare id
  | _ => True

def Process.jobs (p : Process) : List Job := p.stacks.flatten

/-- The session still has its streams: it is not being closed, or the goroutine
that closes it has not come to them. -/
def Process.HasStreams (p : Process) : Prop :=
  p.core.once = .free ∨ ∃ err, Job.dropStreams err ∈ p.jobs

/-- Every job that is run is sound, and OPEN replaces no live stream, on a
session that still has its streams. -/
def Sound (p : Process) : Event → Prop
  | .step n delivered =>
    ∀ g job rest, p.threads[n]? = some g → g.jobs = job :: rest →
      JobSound p.core delivered job
  | .stepLoop delivered =>
    ∀ job rest, p.loop = job :: rest → JobSound p.core delivered job
  | .receive message =>
    ∀ frame, decodeFrame message = some frame → frame.type = .fOpen →
      p.core.Spare frame.streamID ∧ p.HasStreams
  | _ => True

/-! ### What the goroutines owe -/

/-- The stream object that a job works on. -/
def Job.stream : Job → Option Ref
  | .read r _ | .onStream r _ => some r
  | _ => none

/-- What holds between two steps: everything that is begun is some goroutine's
remaining work. -/
structure Coherent (c : Core) (jobs : List Job) : Prop where
  running : c.panicked = false
  written : ∀ r, Job.writeFailed r ∉ jobs
  refs : ∀ job ∈ jobs, ∀ r, job.stream = some r → (c.heap r).isSome
  registered : ∀ id r, c.session.streams.lookup id = some r → r.id = id ∧ (c.heap r).isSome
  closed : c.once = .free ↔ c.session.closed = false
  reason : c.session.closed = true → c.session.closeErr ≠ none
  closing : c.once = .running → Job.closeDone ∈ jobs
  begun : Job.closeDone ∈ jobs → c.once ≠ .free
  failing : c.failed = true → c.once ≠ .free ∨ ∃ err, Job.closeWithErr err ∈ jobs
  dropping : c.once ≠ .free → (∃ err, Job.dropStreams err ∈ jobs) ∨ c.session.streams = ∅
  transport : c.once ≠ .free → Job.closeTransport ∈ jobs ∨ c.transportClosed = true
  tearing : ∀ r, c.tearing r = true → Job.teardownDone r ∈ jobs
  sending : ∀ r st, c.heap r = some st → st.smu = true →
    ∃ p, Job.onStream r (.writing p) ∈ jobs
  live : ∀ r st, c.heap r = some st →
    c.session.streams.lookup r.id = some r ∨ st.closeOnce = true ∨
      ∃ err, Job.onStream r (.teardown err) ∈ jobs
  recv : ∀ r st, c.heap r = some st → st.closeOnce = true →
    st.rerr ≠ none ∨ ∃ err, Job.onStream r (.teardownRecv err) ∈ jobs
  send : ∀ r st, c.heap r = some st → st.closeOnce = true →
    st.serr ≠ none ∨ ∃ err, Job.onStream r (.teardownSend err) ∈ jobs
  signals : ∀ r st, c.heap r = some st → st.closeOnce = true →
    st.signalsClosed = true ∨ Job.onStream r .closeSignals ∈ jobs

theorem coherent_start (cfg : Config) : Coherent { session := newSession cfg } [] := by
  constructor <;> simp [newSession]

/-- What a job is there for has been done, or is left to `jobs`. -/
def Settled (c : Core) (jobs : List Job) : Job → Prop
  | .closeDone => c.once ≠ .running
  | .closeWithErr _ => c.once ≠ .free
  | .dropStreams _ => c.session.streams = ∅
  | .closeTransport => c.transportClosed = true
  | .teardownDone r => c.tearing r = false
  | .onStream r (.writing _) =>
    ∀ st, c.heap r = some st → st.smu = true → ∃ p, Job.onStream r (.writing p) ∈ jobs
  | .onStream r (.teardown _) => ∀ st, c.heap r = some st → st.closeOnce = true
  | .onStream r (.teardownRecv _) => ∀ st, c.heap r = some st → st.rerr ≠ none
  | .onStream r (.teardownSend _) => ∀ st, c.heap r = some st → st.serr ≠ none
  | .onStream r .closeSignals => ∀ st, c.heap r = some st → st.signalsClosed = true
  | _ => True

variable {c : Core}

/-- Jobs may go once they are settled. -/
theorem Coherent.settle {jobs less : List Job} (coherent : Coherent c jobs)
    (old : ∀ x ∈ less, x ∈ jobs) (kept : ∀ x ∈ jobs, x ∈ less ∨ Settled c less x) :
    Coherent c less where
  running := coherent.running
  written r member := coherent.written r (old _ member)
  refs job member := coherent.refs job (old _ member)
  registered := coherent.registered
  closed := coherent.closed
  reason := coherent.reason
  closing isRunning := by
    rcases kept _ (coherent.closing isRunning) with left | settled
    · exact left
    · exact absurd isRunning settled
  begun member := coherent.begun (old _ member)
  failing hasFailed := by
    rcases coherent.failing hasFailed with begun | ⟨err, member⟩
    · exact Or.inl begun
    · rcases kept _ member with left | settled
      · exact Or.inr ⟨err, left⟩
      · exact Or.inl settled
  dropping begun := by
    rcases coherent.dropping begun with ⟨err, member⟩ | empty
    · rcases kept _ member with left | settled
      · exact Or.inl ⟨err, left⟩
      · exact Or.inr settled
    · exact Or.inr empty
  transport begun := by
    rcases coherent.transport begun with member | shut
    · exact kept _ member
    · exact Or.inr shut
  tearing r isTearing := by
    rcases kept _ (coherent.tearing r isTearing) with left | settled
    · exact left
    · exact absurd (isTearing.symm.trans settled) (by simp)
  sending r st present locked := by
    obtain ⟨p, member⟩ := coherent.sending r st present locked
    rcases kept _ member with left | settled
    · exact ⟨p, left⟩
    · exact settled st present locked
  live r st present := by
    rcases coherent.live r st present with registered | once | ⟨err, member⟩
    · exact Or.inl registered
    · exact Or.inr (Or.inl once)
    · rcases kept _ member with left | settled
      · exact Or.inr (Or.inr ⟨err, left⟩)
      · exact Or.inr (Or.inl (settled st present))
  recv r st present once := by
    rcases coherent.recv r st present once with done | ⟨err, member⟩
    · exact Or.inl done
    · rcases kept _ member with left | settled
      · exact Or.inr ⟨err, left⟩
      · exact Or.inl (settled st present)
  send r st present once := by
    rcases coherent.send r st present once with done | ⟨err, member⟩
    · exact Or.inl done
    · rcases kept _ member with left | settled
      · exact Or.inr ⟨err, left⟩
      · exact Or.inl (settled st present)
  signals r st present once := by
    rcases coherent.signals r st present once with done | member
    · exact Or.inl done
    · rcases kept _ member with left | settled
      · exact Or.inr left
      · exact Or.inl (settled st present)

/-- New jobs on streams that exist do no harm. -/
theorem Coherent.add {c : Core} {jobs more : List Job} (coherent : Coherent c jobs)
    (written : ∀ r, Job.writeFailed r ∉ more) (begun : Job.closeDone ∉ more)
    (refs : ∀ job ∈ more, ∀ r, job.stream = some r → (c.heap r).isSome) :
    Coherent c (more ++ jobs) where
  running := coherent.running
  written r member := by
    rcases List.mem_append.mp member with new | old
    · exact written r new
    · exact coherent.written r old
  refs job member := by
    rcases List.mem_append.mp member with new | old
    · exact refs job new
    · exact coherent.refs job old
  registered := coherent.registered
  closed := coherent.closed
  reason := coherent.reason
  closing isRunning := List.mem_append_right _ (coherent.closing isRunning)
  begun member := by
    rcases List.mem_append.mp member with new | old
    · exact absurd new begun
    · exact coherent.begun old
  failing hasFailed :=
    (coherent.failing hasFailed).imp_right fun ⟨err, member⟩ =>
      ⟨err, List.mem_append_right _ member⟩
  dropping begun :=
    (coherent.dropping begun).imp_left fun ⟨err, member⟩ =>
      ⟨err, List.mem_append_right _ member⟩
  transport begun := (coherent.transport begun).imp_left (List.mem_append_right _)
  tearing r isTearing := List.mem_append_right _ (coherent.tearing r isTearing)
  sending r st present locked :=
    (coherent.sending r st present locked).imp fun _ => List.mem_append_right _
  live r st present :=
    (coherent.live r st present).imp_right (Or.imp_right fun ⟨err, member⟩ =>
      ⟨err, List.mem_append_right _ member⟩)
  recv r st present once :=
    (coherent.recv r st present once).imp_right fun ⟨err, member⟩ =>
      ⟨err, List.mem_append_right _ member⟩
  send r st present once :=
    (coherent.send r st present once).imp_right fun ⟨err, member⟩ =>
      ⟨err, List.mem_append_right _ member⟩
  signals r st present once :=
    (coherent.signals r st present once).imp_right (List.mem_append_right _)

/-! ### What a step changes -/

/-- The stream changes in no way that `jobs` do not answer for. -/
structure Kept (jobs : List Job) (r : Ref) (before after : GoStream) : Prop where
  smu : after.smu = true → before.smu = true ∨ ∃ p, Job.onStream r (.writing p) ∈ jobs
  once : before.closeOnce = true → after.closeOnce = true
  recv : after.closeOnce = true →
    before.closeOnce = true ∧ (before.rerr ≠ none → after.rerr ≠ none) ∨
      ∃ err, Job.onStream r (.teardownRecv err) ∈ jobs
  send : after.closeOnce = true →
    before.closeOnce = true ∧ (before.serr ≠ none → after.serr ≠ none) ∨
      ∃ err, Job.onStream r (.teardownSend err) ∈ jobs
  signals : after.closeOnce = true →
    before.closeOnce = true ∧ (before.signalsClosed = true → after.signalsClosed = true) ∨
      Job.onStream r .closeSignals ∈ jobs

theorem Kept.refl (jobs : List Job) (r : Ref) (st : GoStream) : Kept jobs r st st where
  smu := Or.inl
  once := id
  recv once := Or.inl ⟨once, id⟩
  send once := Or.inl ⟨once, id⟩
  signals once := Or.inl ⟨once, id⟩

variable {r : Ref} {st : GoStream}

theorem Coherent.setStream {jobs : List Job} {now : GoStream}
    (coherent : Coherent c jobs) (present : c.heap r = some st) (kept : Kept jobs r st now) :
    Coherent (c.setStream r now) jobs := by
  have there (other : Ref) (isSome : (c.heap other).isSome) :
      ((c.setStream r now).heap other).isSome := by
    by_cases own : other = r
    · simp [Core.setStream, own]
    · simpa [Core.setStream, own] using isSome
  have old (other : Ref) (found : GoStream) (updated : (c.setStream r now).heap other = some found) :
      ∃ before, c.heap other = some before ∧ Kept jobs other before found := by
    by_cases own : other = r
    · subst own
      simp only [Core.setStream, Function.update_self] at updated
      cases updated
      exact ⟨st, present, kept⟩
    · simp only [Core.setStream, Function.update_of_ne own] at updated
      exact ⟨found, updated, Kept.refl jobs other found⟩
  constructor
  · exact coherent.running
  · exact coherent.written
  · exact fun job member other isRef => there other (coherent.refs job member other isRef)
  · intro id other found
    obtain ⟨named, isSome⟩ := coherent.registered id other found
    exact ⟨named, there other isSome⟩
  · exact coherent.closed
  · exact coherent.reason
  · exact coherent.closing
  · exact coherent.begun
  · exact coherent.failing
  · exact coherent.dropping
  · exact coherent.transport
  · exact coherent.tearing
  · intro other found updated locked
    obtain ⟨before, was, kept⟩ := old other found updated
    rcases kept.smu locked with wasLocked | writing
    · exact coherent.sending other before was wasLocked
    · exact writing
  · intro other found updated
    obtain ⟨before, was, kept⟩ := old other found updated
    rcases coherent.live other before was with registered | once | tearing
    · exact Or.inl registered
    · exact Or.inr (Or.inl (kept.once once))
    · exact Or.inr (Or.inr tearing)
  · intro other found updated once
    obtain ⟨before, was, kept⟩ := old other found updated
    rcases kept.recv once with ⟨wasOnce, keeps⟩ | member
    · exact (coherent.recv other before was wasOnce).imp_left keeps
    · exact Or.inr member
  · intro other found updated once
    obtain ⟨before, was, kept⟩ := old other found updated
    rcases kept.send once with ⟨wasOnce, keeps⟩ | member
    · exact (coherent.send other before was wasOnce).imp_left keeps
    · exact Or.inr member
  · intro other found updated once
    obtain ⟨before, was, kept⟩ := old other found updated
    rcases kept.signals once with ⟨wasOnce, keeps⟩ | member
    · exact (coherent.signals other before was wasOnce).imp_left keeps
    · exact Or.inr member

theorem Coherent.setAccept {jobs : List Job} (coherent : Coherent c jobs) (accept : List Ref) :
    Coherent { c with session := { c.session with accept } } jobs :=
  { coherent with }

theorem Coherent.setNextID {jobs : List Job} (coherent : Coherent c jobs) (nextID : UInt32) :
    Coherent { c with session := { c.session with nextID } } jobs :=
  { coherent with }

variable {err : StreamErr}

theorem Coherent.fail {jobs : List Job}
    (coherent : Coherent c jobs) (member : Job.closeWithErr err ∈ jobs) :
    Coherent { c with failed := true } jobs :=
  { coherent with failing := fun _ => Or.inr ⟨err, member⟩ }

/-- A new stream takes the place of no live one. -/
theorem Coherent.create {jobs : List Job} {id : UInt32} (openMeta : Bytes)
    (coherent : Coherent c jobs) (spare : c.Spare id)
    (streams : c.once = .free ∨ ∃ err, Job.dropStreams err ∈ jobs) :
    Coherent (c.create id openMeta) jobs := by
  have there (r : Ref) (isSome : (c.heap r).isSome) :
      ((c.create id openMeta).heap r).isSome := by
    by_cases own : r = { id, gen := c.gens id }
    · simp [Core.create, Core.setStream, own]
    · simpa [Core.create, Core.setStream, own] using isSome
  have old (r : Ref) (st : GoStream) (present : (c.create id openMeta).heap r = some st) :
      (r = { id, gen := c.gens id } ∧ st = newStream c.session.initialWindow openMeta) ∨
        c.heap r = some st := by
    by_cases own : r = { id, gen := c.gens id }
    · left
      subst own
      simp only [Core.create, Core.setStream, Function.update_self, Option.some.injEq] at present
      exact ⟨rfl, present.symm⟩
    · right
      simpa [Core.create, Core.setStream, own] using present
  have found (other : UInt32) :
      (c.create id openMeta).session.streams.lookup other =
        if other = id then some { id, gen := c.gens id }
        else c.session.streams.lookup other := by
    by_cases own : other = id
    · subst own
      simp [Core.create]
    · simp [Core.create, AList.lookup_insert_ne own, own]
  constructor
  · exact coherent.running
  · exact coherent.written
  · exact fun job member r isRef => there r (coherent.refs job member r isRef)
  · intro other r lookup
    rw [found] at lookup
    split at lookup
    case isTrue own =>
      cases lookup
      exact ⟨own.symm, by simp [Core.create, Core.setStream]⟩
    case isFalse =>
      obtain ⟨named, isSome⟩ := coherent.registered other r lookup
      exact ⟨named, there r isSome⟩
  · exact coherent.closed
  · exact coherent.reason
  · exact coherent.closing
  · exact coherent.begun
  · exact coherent.failing
  · intro begun
    rcases streams with free | dropping
    · exact absurd free begun
    · exact Or.inl dropping
  · exact coherent.transport
  · exact coherent.tearing
  · intro r st present locked
    rcases old r st present with ⟨-, rfl⟩ | before
    · simp [newStream] at locked
    · exact coherent.sending r st before locked
  · intro r st present
    rcases old r st present with ⟨rfl, -⟩ | before
    · exact Or.inl (by simp [found])
    · rcases coherent.live r st before with lookup | gone
      · by_cases same : r.id = id
        · exact Or.inr (Or.inl (spare r st (same ▸ lookup) before))
        · exact Or.inl (by simpa [found, same] using lookup)
      · exact Or.inr gone
  · intro r st present once
    rcases old r st present with ⟨-, rfl⟩ | before
    · simp [newStream] at once
    · exact coherent.recv r st before once
  · intro r st present once
    rcases old r st present with ⟨-, rfl⟩ | before
    · simp [newStream] at once
    · exact coherent.send r st before once
  · intro r st present once
    rcases old r st present with ⟨-, rfl⟩ | before
    · simp [newStream] at once
    · exact coherent.signals r st before once

/-- A teardown begins. -/
theorem Coherent.tear {jobs : List Job} (coherent : Coherent c jobs)
    (member : Job.teardownDone r ∈ jobs) :
    Coherent { c with tearing := Function.update c.tearing r true } jobs where
  __ := coherent
  tearing other isTearing := by
    by_cases own : other = r
    · exact own ▸ member
    · exact coherent.tearing other (by simpa [own] using isTearing)

theorem Coherent.torn {jobs : List Job} (r : Ref) (coherent : Coherent c jobs) :
    Coherent { c with tearing := Function.update c.tearing r false } jobs where
  __ := coherent
  tearing other isTearing := by
    by_cases own : other = r
    · simp [own] at isTearing
    · exact coherent.tearing other (by simpa [own] using isTearing)

/-- A stream that is torn down may be removed. -/
theorem Coherent.erase {jobs : List Job} {id : UInt32} (coherent : Coherent c jobs)
    (spare : c.Spare id) :
    Coherent
      { c with session := { c.session with streams := c.session.streams.erase id } } jobs where
  __ := coherent
  registered other r found := by
    by_cases own : other = id
    · subst own
      simp at found
    · exact coherent.registered other r (by simpa [AList.lookup_erase_ne own] using found)
  dropping begun := by
    rcases coherent.dropping begun with member | empty
    · exact Or.inl member
    · right
      simp only [empty]
      rfl
  live r st present := by
    rcases coherent.live r st present with registered | rest
    · by_cases own : r.id = id
      · exact Or.inr (Or.inl (spare r st (own ▸ registered) present))
      · exact Or.inl (by simpa [AList.lookup_erase_ne own] using registered)
    · exact Or.inr rest

/-! ### Closing the session -/

/-- `closeWithErr` begins. -/
theorem Coherent.beginClose {jobs : List Job}
    (coherent : Coherent c jobs) (drop : Job.dropStreams err ∈ jobs)
    (shut : Job.closeTransport ∈ jobs) :
    Coherent
      { c with
        once := .running
        session := { c.session with closed := true, closeErr := some err } }
      (.closeDone :: jobs) where
  running := coherent.running
  written r member := coherent.written r (by simpa using member)
  refs job member r isRef := by
    rcases List.mem_cons.mp member with rfl | old
    · cases isRef
    · exact coherent.refs job old r isRef
  registered := coherent.registered
  closed := by simp
  reason _ := by simp
  closing _ := List.mem_cons_self
  begun _ := by simp
  failing _ := Or.inl (by simp)
  dropping _ := Or.inl ⟨err, List.mem_cons_of_mem _ drop⟩
  transport _ := Or.inl (List.mem_cons_of_mem _ shut)
  tearing r isTearing := List.mem_cons_of_mem _ (coherent.tearing r isTearing)
  sending r st present locked :=
    (coherent.sending r st present locked).imp fun _ => List.mem_cons_of_mem _
  live r st present :=
    (coherent.live r st present).imp_right (Or.imp_right fun ⟨err, member⟩ =>
      ⟨err, List.mem_cons_of_mem _ member⟩)
  recv r st present once :=
    (coherent.recv r st present once).imp_right fun ⟨err, member⟩ =>
      ⟨err, List.mem_cons_of_mem _ member⟩
  send r st present once :=
    (coherent.send r st present once).imp_right fun ⟨err, member⟩ =>
      ⟨err, List.mem_cons_of_mem _ member⟩
  signals r st present once :=
    (coherent.signals r st present once).imp_right (List.mem_cons_of_mem _)

/-- Every registered stream is left to a teardown. -/
theorem Coherent.drop {jobs : List Job} (coherent : Coherent c jobs)
    (torn : ∀ id r, c.session.streams.lookup id = some r →
      Job.onStream r (.teardown err) ∈ jobs) :
    Coherent { c with session := { c.session with streams := ∅ } } jobs where
  __ := coherent
  registered id r found := by simp at found
  dropping _ := Or.inr rfl
  live r st present := by
    rcases coherent.live r st present with registered | rest
    · exact Or.inr (Or.inr ⟨err, torn r.id r registered⟩)
    · exact Or.inr rest

theorem Coherent.shut {jobs : List Job} (coherent : Coherent c jobs) :
    Coherent { c with transportClosed := true } jobs where
  __ := coherent
  transport _ := Or.inr rfl

/-- `closeWithErr` ends: it has begun. -/
theorem Coherent.endClose {jobs : List Job} (coherent : Coherent c jobs)
    (begun : c.once ≠ .free) : Coherent { c with once := .done } jobs where
  __ := coherent
  closed := by simpa [begun] using coherent.closed
  closing isRunning := by simp at isRunning
  begun _ := by simp
  failing _ := Or.inl (by simp)
  dropping _ := coherent.dropping begun
  transport _ := coherent.transport begun

/-! ### Running a job -/

variable {outcome : Outcome}

theorem critical_cases {op : StreamOp} (ran : c.critical r op = some outcome) :
    ∃ st effect, c.heap r = some st ∧ st.exec c.session.maxChunk false op = some effect ∧
      outcome.after =
        { c.setStream r effect.stream with panicked := c.panicked || effect.panics } ∧
      outcome.continues =
        effect.continues.map (.onStream r) ++
          (if effect.sendEnd then [.writeFrame .fEnd r.id []] else []) ∧
      outcome.failed = false := by
  simp only [Core.critical, Option.bind_eq_some_iff, Option.map_eq_some_iff] at ran
  obtain ⟨st, present, effect, exec, rfl⟩ := ran
  exact ⟨st, effect, present, exec, rfl, rfl, rfl⟩

/-- A section that begins no teardown only adds to the reasons to fail. -/
theorem exec_kept {maxChunk : Nat} {op : StreamOp} {effect : StreamEffect}
    (jobs : List Job) (r : Ref) (ran : st.exec maxChunk false op = some effect)
    (noTeardown : ∀ err, op ≠ .teardown err) :
    Kept (effect.continues.map (.onStream r) ++ jobs) r st effect.stream := by
  cases op with
  | write p =>
    simp only [GoStream.exec] at ran
    split at ran
    · cases ran
    split at ran <;> cases ran
    · exact Kept.refl _ _ _
    · constructor <;> simp +contextual
  | writing p =>
    simp only [GoStream.exec, Bool.false_eq_true, if_false] at ran
    split at ran <;> cases ran <;> constructor <;> simp +contextual
  | closeWrite =>
    simp only [GoStream.exec] at ran
    split at ran
    · cases ran
    · split at ran <;> cases ran <;> constructor <;> simp +contextual
  | teardown err => exact absurd rfl (noTeardown err)
  | teardownRecv err | closeSignals | onEnd =>
    simp only [GoStream.exec, Option.some.injEq] at ran
    subst ran
    constructor <;> simp +contextual
  | teardownSend err | onCredit n =>
    simp only [GoStream.exec] at ran
    split at ran <;> cases ran
    constructor <;> simp +contextual
  | onData data =>
    simp only [GoStream.exec] at ran
    split at ran <;> cases ran <;> constructor <;> simp +contextual
  | onSignal payload =>
    simp only [GoStream.exec] at ran
    split at ran
    · cases ran
      exact Kept.refl _ _ _
    · split at ran <;> cases ran <;> constructor <;> simp +contextual

/-- No section panics but a signal for a closed channel. -/
theorem exec_silent {maxChunk : Nat} {op : StreamOp} {effect : StreamEffect}
    (ran : st.exec maxChunk false op = some effect)
    (opens : ∀ payload, op = .onSignal payload → st.signalsClosed = false) :
    effect.panics = false := by
  cases op with
  | onSignal payload =>
    simp only [GoStream.exec, opens payload rfl, Bool.false_eq_true, if_false] at ran
    split at ran <;> cases ran <;> rfl
  | _ =>
    simp only [GoStream.exec] at ran
    (repeat' split at ran) <;> first | contradiction | (cases ran; rfl)

theorem Coherent.critical {jobs : List Job} {op : StreamOp}
    (coherent : Coherent c jobs) (noTeardown : ∀ err, op ≠ .teardown err)
    (opens : ∀ payload st, op = .onSignal payload → c.heap r = some st →
      st.signalsClosed = false) (ran : c.critical r op = some outcome) :
    Coherent outcome.after (outcome.continues ++ jobs) ∧
      Settled outcome.after outcome.continues (.onStream r op) := by
  obtain ⟨st, effect, present, exec, after, continues, -⟩ := critical_cases ran
  have silent : effect.panics = false :=
    exec_silent exec fun payload is => opens payload st is present
  have added : Coherent c
      (effect.continues.map (.onStream r) ++
        ((if effect.sendEnd then [.writeFrame .fEnd r.id []] else []) ++ jobs)) := by
    apply Coherent.add
    · apply coherent.add
      · intro r
        split <;> simp
      · split <;> simp
      · intro job member
        split at member <;> simp_all [Job.stream]
    · simp
    · simp
    · intro job member other isRef
      obtain ⟨op, -, rfl⟩ := List.mem_map.mp member
      cases isRef
      simp [present]
  have updated := added.setStream present (exec_kept _ r exec noTeardown)
  rw [after, continues, coherent.running, silent, List.append_assoc]
  constructor
  · exact { updated with running := rfl }
  · have found (now : GoStream)
        (is : (c.setStream r effect.stream).heap r = some now) : effect.stream = now := by
      simpa [Core.setStream] using is
    cases op with
    | writing p =>
      intro now is locked
      cases found now is
      simp only [GoStream.exec, Bool.false_eq_true, if_false] at exec
      split at exec <;> cases exec <;> simp_all
    | teardown err => exact absurd rfl (noTeardown err)
    | teardownRecv err =>
      intro now is
      cases found now is
      simp only [GoStream.exec, Option.some.injEq] at exec
      subst exec
      simp
    | teardownSend err =>
      intro now is
      cases found now is
      simp only [GoStream.exec] at exec
      split at exec <;> cases exec
      simp
    | closeSignals =>
      intro now is
      cases found now is
      simp only [GoStream.exec, Option.some.injEq] at exec
      subst exec
      rfl
    | _ => trivial

/-- A transport write, and what follows if it fails. -/
theorem Coherent.write {c : Core} {jobs : List Job} {delivered : Bool} {later : List Job}
    (coherent : Coherent c jobs) (plain : ∀ job ∈ later, ∃ id, job = .removeStream id) :
    Coherent (c.send delivered later).after ((c.send delivered later).continues ++ jobs) := by
  unfold Core.send
  split
  · exact coherent
  · have added : Coherent c (.closeWithErr .transport :: later ++ jobs) := by
      apply coherent.add
      · intro r member
        rcases List.mem_cons.mp member with is | more
        · cases is
        · obtain ⟨id, is⟩ := plain _ more
          cases is
      · intro member
        rcases List.mem_cons.mp member with is | more
        · cases is
        · obtain ⟨id, is⟩ := plain _ more
          cases is
      · intro job member r isRef
        rcases List.mem_cons.mp member with rfl | more
        · cases isRef
        · obtain ⟨id, rfl⟩ := plain _ more
          cases isRef
    exact added.fail List.mem_cons_self

/-- `Read` takes bytes from the buffer alone. -/
theorem read_kept {creditThreshold n : Nat} {taken : ReadStep} (jobs : List Job)
    (r : Ref) (ran : st.read creditThreshold n = some taken) :
    Kept jobs r st taken.stream := by
  simp only [GoStream.read] at ran
  split at ran
  · split at ran
    · cases ran
      exact Kept.refl _ _ _
    · split at ran <;> cases ran
      exact Kept.refl _ _ _
  · split at ran <;> cases ran <;> constructor <;> simp +contextual

theorem Coherent.teardown {jobs : List Job} (coherent : Coherent c jobs) (ran : c.teardown r err = some outcome) :
    Coherent outcome.after (outcome.continues ++ jobs) ∧
      Settled outcome.after outcome.continues (.onStream r (.teardown err)) := by
  simp only [Core.teardown] at ran
  split at ran
  · cases ran
  · obtain ⟨st, present, rfl⟩ := Option.map_eq_some_iff.mp ran
    split
    case isTrue once =>
      refine ⟨coherent, ?_⟩
      intro now is
      cases present.symm.trans is
      exact once
    case isFalse =>
      constructor
      · have added : Coherent c
            ([.onStream r (.teardownRecv err), .onStream r (.teardownSend err),
              .onStream r .closeSignals, .teardownDone r] ++ jobs) := by
          apply coherent.add
          · simp
          · simp
          · simp [Job.stream, present]
        have updated : Coherent (c.setStream r { st with closeOnce := true }) _ :=
          added.setStream present (by constructor <;> simp +contextual)
        exact updated.tear (by simp)
      · intro now is
        have : { st with closeOnce := true } = now := by
          simpa [Core.setStream] using is
        cases this
        rfl

/-- A sound job keeps what holds between steps, and settles itself. -/
theorem Coherent.exec {jobs : List Job} {job : Job} {delivered : Bool}
    (coherent : Coherent c jobs) (member : job ∈ jobs)
    (sound : JobSound c delivered job) (ran : c.exec delivered job = some outcome) :
    Coherent outcome.after (outcome.continues ++ jobs) ∧
      Settled outcome.after outcome.continues job := by
  cases job with
  | openStream openMeta =>
    simp only [Core.exec] at ran
    split at ran
    case isTrue =>
      cases ran
      exact ⟨coherent, trivial⟩
    case isFalse isOpen =>
      cases ran
      have isOpen : c.session.closed = false := by simpa using isOpen
      have created := coherent.create openMeta (sound isOpen)
        (Or.inl (coherent.closed.mpr isOpen))
      refine ⟨?_, trivial⟩
      apply Coherent.add
      · exact created.setNextID _
      · simp
      · simp
      · simp [Job.stream]
  | openFrame r openMeta | writeFrame type id payload =>
    cases ran
    exact ⟨coherent.write (by simp), trivial⟩
  | accept | acceptSend r =>
    simp only [Core.exec] at ran
    split at ran
    · cases ran
      exact ⟨coherent.setAccept _, trivial⟩
    · split at ran <;> cases ran
      exact ⟨coherent, trivial⟩
  | read r n =>
    simp only [Core.exec, Option.bind_eq_some_iff, Option.map_eq_some_iff] at ran
    obtain ⟨st, present, taken, read, rfl⟩ := ran
    refine ⟨?_, trivial⟩
    apply Coherent.add
    · exact coherent.setStream present (read_kept _ r read)
    · intro r
      split <;> simp
    · split <;> simp
    · intro job member
      split at member <;> simp_all [Job.stream]
  | onStream r op =>
    cases op with
    | writing p =>
      obtain ⟨rfl, isOpen⟩ := sound
      simp only [Core.exec, isOpen, Bool.not_false, Bool.and_self, if_true] at ran
      exact coherent.critical (by simp) (by simp) ran
    | teardown err => exact coherent.teardown ran
    | onSignal payload =>
      exact coherent.critical (by simp) (fun _ st _ present => sound st present) ran
    | _ => exact coherent.critical (by simp) (by simp) ran
  | writeFailed r => exact absurd member (coherent.written r)
  | teardownDone r =>
    cases ran
    exact ⟨coherent.torn r, by simp [Settled]⟩
  | closeWithErr err =>
    simp only [Core.exec] at ran
    split at ran <;> cases ran
    case h_2 isDone => exact ⟨coherent, by simp [Settled, isDone]⟩
    case h_3 =>
      have added : Coherent c ([.dropStreams err, .closeTransport] ++ jobs) :=
        coherent.add (by simp) (by simp) (by simp [Job.stream])
      have drops : Job.dropStreams err ∈ [.dropStreams err, .closeTransport] ++ jobs := by simp
      have begun := added.beginClose drops (by simp)
      refine ⟨begun.settle ?_ ?_, by simp [Settled]⟩
      · intro x isIn
        simp only [List.cons_append, List.nil_append, List.mem_cons] at isIn ⊢
        tauto
      · intro x isIn
        left
        simp only [List.cons_append, List.nil_append, List.mem_cons] at isIn ⊢
        tauto
  | dropStreams err =>
    cases ran
    refine ⟨?_, rfl⟩
    apply Coherent.drop
    · apply coherent.add
      · simp
      · simp
      · intro job isIn r isRef
        obtain ⟨entry, entered, rfl⟩ := List.mem_map.mp isIn
        cases isRef
        have found := AList.mem_lookup_iff.mpr entered
        exact (coherent.registered entry.1 entry.2 found).2
    · intro id r found
      apply List.mem_append_left
      exact List.mem_map.mpr ⟨⟨id, r⟩, AList.mem_lookup_iff.mp found, rfl⟩
  | closeTransport =>
    cases ran
    exact ⟨coherent.shut, rfl⟩
  | closeDone =>
    cases ran
    exact ⟨coherent.endClose (coherent.begun member), by simp [Settled]⟩
  | removeStream id =>
    cases ran
    exact ⟨coherent.erase sound, trivial⟩

end HelixKit.Stream.Failing
