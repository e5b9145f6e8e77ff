/-
Purpose: A Go session that runs right never has a goroutine take a lock that it
  holds, and once nothing can go on after a failed transport write, it has
  ended.
Trusted boundary: none
-/
import HelixKit.Stream.Answers
import HelixKit.Stream.Unwinding

namespace HelixKit.Stream.Failing

open HelixKit.Runs

/-! ### Stacks -/

/-- The job is all that its goroutine has to do: it waits for the application
or for the peer, or it holds a send mutex. -/
def Job.Alone : Job → Prop
  | .accept | .acceptSend _ | .read _ _ => True
  | .onStream _ (.write _) | .onStream _ (.writing _) => True
  | _ => False

/-- The job is part of the teardown of `r`. -/
def Job.Tears (r : Ref) : Job → Prop
  | .onStream other (.teardownRecv _) | .onStream other (.teardownSend _)
  | .onStream other .closeSignals => other = r
  | _ => False

/-- The job runs under the session's `closeOnce`. -/
def Job.Closes : Job → Prop
  | .dropStreams _ | .closeTransport | .teardownDone _ => True
  | .onStream _ (.teardown _) | .onStream _ (.teardownRecv _)
  | .onStream _ (.teardownSend _) | .onStream _ .closeSignals => True
  | _ => False

/-- `job` may stand above `below` in a goroutine's stack. -/
structure Job.Above (job below : Job) : Prop where
  shared : ¬ job.Alone ∧ ¬ below.Alone
  closes : below = .closeDone → job.Closes
  tears : ∀ r, below = .teardownDone r → job.Tears r

/-- A stack in order never takes a lock that it holds. -/
theorem no_self_lock {stack : List Job} (ordered : stack.Pairwise Job.Above)
    (written : ∀ r, Job.writeFailed r ∉ stack) : ¬ SelfLock stack := by
  cases stack with
  | nil => exact id
  | cons job rest =>
    rintro ⟨held, isIn, waits⟩
    have above : job.Above held := List.rel_of_pairwise_cons ordered isIn
    cases held with
    | closeDone =>
      have closes := above.closes rfl
      cases job <;> simp_all [Job.WaitsFor, Job.Closes]
    | teardownDone r =>
      have tears := above.tears r rfl
      cases job with
      | onStream other op => cases op <;> simp_all [Job.WaitsFor, Job.Tears]
      | _ => simp_all [Job.WaitsFor]
    | writeFailed r => exact written r (List.mem_cons_of_mem _ isIn)
    | onStream other op =>
      cases op with
      | writing p => exact above.shared.2 trivial
      | _ => cases job <;> simp_all [Job.WaitsFor]
    | _ => cases job <;> simp_all [Job.WaitsFor]

/-- What takes the place of `job` may stand above what `job` stood above. -/
structure Job.Continues (job next : Job) : Prop where
  shared : ¬ job.Alone → ¬ next.Alone
  closes : job.Closes → next.Closes
  tears : ∀ r, job.Tears r → next.Tears r

theorem Job.Continues.above {job next below : Job} (continues : job.Continues next)
    (above : job.Above below) : next.Above below where
  shared := ⟨continues.shared above.shared.1, above.shared.2⟩
  closes is := continues.closes (above.closes is)
  tears r is := continues.tears r (above.tears r is)

variable {c : Core}

/-- A section goes on with itself alone, and `CloseWrite` with its END. -/
theorem critical_continues {r : Ref} {op : StreamOp} {outcome : Outcome}
    (noTeardown : ∀ err, op ≠ .teardown err) (ran : c.critical r op = some outcome) :
    outcome.continues = [] ∨
      ∃ next, outcome.continues = [next] ∧ (Job.onStream r op).Continues next := by
  obtain ⟨st, effect, -, exec, -, continues, -⟩ := critical_cases ran
  rw [continues]
  cases op with
  | write p | closeWrite =>
    simp only [GoStream.exec] at exec
    split at exec
    · cases exec
    split at exec <;> cases exec
    · exact Or.inl rfl
    · refine Or.inr ⟨_, rfl, ?_⟩
      constructor <;> simp [Job.Alone, Job.Closes, Job.Tears]
  | writing p =>
    simp only [GoStream.exec, Bool.false_eq_true, if_false] at exec
    split at exec <;> cases exec
    · exact Or.inl rfl
    · refine Or.inr ⟨_, rfl, ?_⟩
      constructor <;> simp [Job.Alone, Job.Closes, Job.Tears]
    · refine Or.inr ⟨_, rfl, ?_⟩
      constructor <;> simp [Job.Alone, Job.Closes, Job.Tears]
  | teardown err => exact absurd rfl (noTeardown err)
  | _ =>
    left
    simp only [GoStream.exec] at exec
    (repeat' split at exec) <;> first | contradiction | (cases exec; rfl)

theorem send_continues (c : Core) (delivered : Bool) (later : List Job) :
    (c.send delivered later).continues = [] ∨
      (c.send delivered later).continues = .closeWithErr .transport :: later := by
  unfold Core.send
  split
  · exact Or.inl rfl
  · exact Or.inr rfl

variable {job : Job}

theorem exec_continues {delivered : Bool} {outcome : Outcome}
    (sound : JobSound c delivered job) (ran : c.exec delivered job = some outcome) :
    outcome.continues.Pairwise Job.Above ∧ ∀ next ∈ outcome.continues, job.Continues next := by
  have critical (r : Ref) (op : StreamOp) (noTeardown : ∀ err, op ≠ .teardown err)
      (ran : c.critical r op = some outcome) :
      outcome.continues.Pairwise Job.Above ∧
        ∀ next ∈ outcome.continues, (Job.onStream r op).Continues next := by
    rcases critical_continues noTeardown ran with none | ⟨next, one, continues⟩
    · simp [none]
    · simpa [one] using continues
  cases job with
  | openStream openMeta =>
    simp only [Core.exec] at ran
    split at ran <;> cases ran
    · simp
    · refine ⟨List.pairwise_singleton _ _, ?_⟩
      intro next isIn
      cases List.mem_singleton.mp isIn
      constructor <;> simp [Job.Alone, Job.Closes, Job.Tears]
  | openFrame r openMeta =>
    cases ran
    rcases send_continues c delivered [.removeStream r.id] with none | failed
    · simp [none]
    · rw [failed]
      constructor
      · rw [List.pairwise_pair]
        constructor <;> simp [Job.Alone]
      · intro next isIn
        simp only [List.mem_cons, List.not_mem_nil, or_false] at isIn
        rcases isIn with rfl | rfl <;>
          constructor <;> simp [Job.Alone, Job.Closes, Job.Tears]
  | accept | acceptSend r =>
    simp only [Core.exec] at ran
    split at ran
    · cases ran
      simp
    · split at ran <;> cases ran
      simp
  | read r n =>
    simp only [Core.exec, Option.bind_eq_some_iff, Option.map_eq_some_iff] at ran
    obtain ⟨st, -, taken, -, rfl⟩ := ran
    split
    · refine ⟨List.pairwise_singleton _ _, ?_⟩
      intro next isIn
      cases List.mem_singleton.mp isIn
      constructor <;> simp [Job.Alone, Job.Closes, Job.Tears]
    · simp
  | onStream r op =>
    cases op with
    | writing p =>
      obtain ⟨rfl, isOpen⟩ := sound
      simp only [Core.exec, isOpen, Bool.not_false, Bool.and_self, if_true] at ran
      exact critical _ _ (by simp) ran
    | teardown err =>
      simp only [Core.exec, Core.teardown] at ran
      split at ran
      · cases ran
      obtain ⟨st, -, rfl⟩ := Option.map_eq_some_iff.mp ran
      split
      · simp
      constructor
      · simp only [List.pairwise_cons, List.mem_cons, List.not_mem_nil, or_false]
        refine ⟨?_, ?_, ?_, by simp, List.Pairwise.nil⟩
        · rintro below (rfl | rfl | rfl) <;>
            constructor <;> simp [Job.Alone, Job.Closes, Job.Tears]
        · rintro below (rfl | rfl) <;>
            constructor <;> simp [Job.Alone, Job.Closes, Job.Tears]
        · rintro below rfl
          constructor <;> simp [Job.Alone, Job.Closes, Job.Tears]
      · intro next isIn
        simp only [List.mem_cons, List.not_mem_nil, or_false] at isIn
        rcases isIn with rfl | rfl | rfl | rfl <;>
          constructor <;> simp [Job.Alone, Job.Closes, Job.Tears]
    | _ => exact critical _ _ (by simp) ran
  | writeFailed r =>
    simp only [Core.exec, Option.map_eq_some_iff] at ran
    obtain ⟨st, -, rfl⟩ := ran
    simp
  | writeFrame type id payload =>
    cases ran
    rcases send_continues c delivered [] with none | failed
    · simp [none]
    · rw [failed]
      refine ⟨List.pairwise_singleton _ _, ?_⟩
      intro next isIn
      cases List.mem_singleton.mp isIn
      constructor <;> simp [Job.Alone, Job.Closes, Job.Tears]
  | closeWithErr err =>
    simp only [Core.exec] at ran
    split at ran <;> cases ran
    · simp
    · constructor
      · simp only [List.pairwise_cons, List.mem_cons, List.not_mem_nil, or_false]
        refine ⟨?_, ?_, by simp, List.Pairwise.nil⟩
        · rintro below (rfl | rfl) <;>
            constructor <;> simp [Job.Alone, Job.Closes]
        · rintro below rfl
          constructor <;> simp [Job.Alone, Job.Closes]
      · intro next isIn
        simp only [List.mem_cons, List.not_mem_nil, or_false] at isIn
        rcases isIn with rfl | rfl | rfl <;>
          constructor <;> simp [Job.Alone, Job.Closes, Job.Tears]
  | dropStreams err =>
    cases ran
    constructor
    · rw [List.pairwise_map]
      apply List.pairwise_of_forall
      intro first second
      constructor <;> simp [Job.Alone]
    · intro next isIn
      obtain ⟨entry, -, rfl⟩ := List.mem_map.mp isIn
      constructor <;> simp [Job.Alone, Job.Closes, Job.Tears]
  | _ =>
    cases ran
    simp

/-- Running the first job keeps the stack in order. -/
theorem ordered_ran {rest : List Job} {delivered : Bool}
    {outcome : Outcome} (ordered : (job :: rest).Pairwise Job.Above)
    (sound : JobSound c delivered job) (ran : c.exec delivered job = some outcome) :
    (outcome.continues ++ rest).Pairwise Job.Above := by
  obtain ⟨above, below⟩ := List.pairwise_cons.mp ordered
  obtain ⟨inOrder, continues⟩ := exec_continues sound ran
  apply List.pairwise_append.mpr
  refine ⟨inOrder, below, ?_⟩
  intro next isNext old isOld
  exact (continues next isNext).above (above old isOld)

/-! ### Steps -/

/-- A goroutine goes on: the event runs one of its jobs. -/
def Runs (p : Process) : Event → Prop
  | .step n delivered =>
    ∃ g job rest, p.threads[n]? = some g ∧ g.jobs = job :: rest ∧
      (p.core.exec delivered job).isSome
  | .stepLoop delivered =>
    ∃ job rest, p.loop = job :: rest ∧ (p.core.exec delivered job).isSome
  | _ => False

def Process.Honest (p : Process) : Prop := ∀ g ∈ p.threads, g.Honest

/-- `q` is `p` after one goroutine has run its first job. -/
inductive Ran (p q : Process) : Prop
  | intro {before after : List (List Job)} {job : Job} {rest : List Job} {delivered : Bool}
      {outcome : Outcome} (was : p.stacks = before ++ (job :: rest) :: after)
      (isNow : q.stacks = before ++ (outcome.continues ++ rest) :: after)
      (core : q.core = outcome.after) (honest : p.Honest → q.Honest)
      (sound : JobSound p.core delivered job) (ran : p.core.exec delivered job = some outcome)

/-- The job goes on with what another job began. -/
def Job.Pending : Job → Prop
  | .writeFailed _ | .teardownDone _ | .closeDone | .onStream _ (.writing _) => True
  | _ => False

/-- Work that a goroutine may begin. -/
structure Fresh (c : Core) (more : List Job) : Prop where
  begins : ∀ job ∈ more, ¬ job.Pending
  ordered : more.Pairwise Job.Above
  refs : ∀ job ∈ more, ∀ r, job.stream = some r → (c.heap r).isSome

theorem Fresh.one (begins : ¬ job.Pending)
    (refs : ∀ r, job.stream = some r → (c.heap r).isSome) : Fresh c [job] where
  begins := by simpa using begins
  ordered := List.pairwise_singleton _ _
  refs := by simpa using refs

/-- What the events outside of the goroutines do. -/
inductive Begins (p : Process) : Process → Prop
  | nothing : Begins p p
  | call (call : Call) (fresh : Fresh p.core call.jobs) :
      Begins p { p with threads := p.threads ++ [{ call, jobs := call.jobs }] }
  | load (more : List Job) (ended : Bool) (idle : p.loop = []) (fresh : Fresh p.core more) :
      Begins p { p with loop := more, readLoopDone := ended }
  | create (id : UInt32) (openMeta : Bytes) (idle : p.loop = [])
      (spare : p.core.Spare id) (streams : p.HasStreams) :
      Begins p
        { p with
          core := p.core.create id openMeta
          loop := [.acceptSend { id, gen := p.core.gens id }] }

variable {p : Process}

theorem stacks_set {n : Nat} {g : Goroutine} (new : Goroutine) (found : p.threads[n]? = some g) :
    ∃ before after, p.stacks = before ++ g.jobs :: after ∧
      p.loop :: (p.threads.set n new).map Goroutine.jobs = before ++ new.jobs :: after := by
  obtain ⟨inside, is⟩ := List.getElem?_eq_some_iff.mp found
  refine ⟨p.loop :: (p.threads.take n).map Goroutine.jobs,
    (p.threads.drop (n + 1)).map Goroutine.jobs, ?_, ?_⟩
  · have split : p.threads = p.threads.take n ++ g :: p.threads.drop (n + 1) := by
      rw [← is, List.getElem_cons_drop, List.take_append_drop]
    simp only [Process.stacks, List.cons_append]
    rw [← List.map_cons, ← List.map_append, ← split]
  · rw [List.set_eq_take_append_cons_drop, if_pos inside]
    simp

theorem step_ran {event : Event} (running : p.core.panicked = false)
    (sound : Sound p event) (runs : Runs p event) : Ran p (step p event) := by
  cases event with
  | step n delivered =>
    obtain ⟨⟨call, _, hasFailed, answer⟩, job, rest, found, rfl, runs⟩ := runs
    obtain ⟨outcome, ran⟩ := Option.isSome_iff_exists.mp runs
    obtain ⟨before, after, was, isNow⟩ :=
      stacks_set (Goroutine.ran ⟨call, job :: rest, hasFailed, answer⟩ outcome rest) found
    simp only [Failing.step, running, Bool.false_eq_true, if_false, found, ran]
    refine Ran.intro was isNow rfl ?_ (sound _ _ _ found rfl) ran
    intro honest g isIn
    rcases List.mem_or_eq_of_mem_set isIn with old | rfl
    · exact honest g old
    · exact (honest _ (List.mem_of_getElem? found)).ran rfl ran
  | stepLoop delivered =>
    obtain ⟨job, rest, loop, runs⟩ := runs
    obtain ⟨outcome, ran⟩ := Option.isSome_iff_exists.mp runs
    have was : p.stacks = [] ++ (job :: rest) :: p.threads.map Goroutine.jobs := by
      simp [Process.stacks, loop]
    simp only [Failing.step, running, Bool.false_eq_true, if_false, loop, ran]
    exact Ran.intro was rfl rfl id (sound _ _ loop) ran
  | _ => exact absurd runs id

theorem call_fresh {call : Call}
    (present : ∀ r, call.stream = some r → (c.heap r).isSome) : Fresh c call.jobs := by
  cases call with
  | close r | reset r reason =>
    constructor
    · simp [Call.jobs, Job.Pending]
    · simp only [Call.jobs, List.pairwise_cons, List.mem_cons, List.not_mem_nil, or_false]
      refine ⟨?_, ?_, by simp, List.Pairwise.nil⟩
      · rintro below (rfl | rfl) <;> constructor <;> simp [Job.Alone]
      · rintro below rfl
        constructor <;> simp [Job.Alone]
    · simpa [Call.jobs, Job.stream, Call.stream] using present
  | signal r payload => exact Fresh.one id (by simp [Job.stream])
  | _ => exact Fresh.one id present

theorem dispatch_begins {frame : Frame} (idle : p.loop = [])
    (registered : ∀ id r, p.core.session.streams.lookup id = some r →
      (p.core.heap r).isSome) (sound : frame.type = .fOpen →
      p.core.Spare frame.streamID ∧ p.HasStreams) :
    Begins p (p.dispatch frame) := by
  have forward (op : StreamOp) (begins : ∀ r, ¬ (Job.onStream r op).Pending) :
      Begins p (p.forward frame.streamID op) := by
    unfold Process.forward
    split
    next r found =>
      apply Begins.load _ _ idle
      apply Fresh.one (begins r)
      simpa [Job.stream] using registered _ r found
    next => exact Begins.nothing
  simp only [Process.dispatch]
  split
  next => exact Begins.load _ _ idle (Fresh.one id (by simp [Job.stream]))
  next isOpen =>
    obtain ⟨spare, streams⟩ := sound isOpen
    exact Begins.create frame.streamID frame.payload idle spare streams
  next => exact forward _ fun _ => id
  next => exact forward _ fun _ => id
  next =>
    split
    next r found =>
      apply Begins.load _ _ idle
      constructor
      · simp [Job.Pending]
      · rw [List.pairwise_pair]
        constructor <;> simp [Job.Alone]
      · simpa [Job.stream] using registered _ r found
    next => exact Begins.nothing
  next => exact forward _ fun _ => id
  next => exact forward _ fun _ => id
  next => exact Begins.nothing
  next => exact Begins.nothing

theorem step_begins {event : Event} (running : p.core.panicked = false)
    (registered : ∀ id r, p.core.session.streams.lookup id = some r →
      (p.core.heap r).isSome)
    (sound : Sound p event) (rests : ¬ Runs p event) : Begins p (step p event) := by
  simp only [Failing.step, running, Bool.false_eq_true, if_false]
  cases event with
  | call call =>
    dsimp only
    split
    case isTrue present => exact Begins.call call (call_fresh present)
    case isFalse => exact Begins.nothing
  | step n delivered =>
    dsimp only
    split
    next found =>
      split
      next ran => exact absurd ⟨_, _, _, found, rfl, Option.isSome_iff_exists.mpr ⟨_, ran⟩⟩ rests
      next => exact Begins.nothing
    next => exact Begins.nothing
  | stepLoop delivered =>
    dsimp only
    split
    next loop =>
      split
      next ran => exact absurd ⟨_, _, loop, Option.isSome_iff_exists.mpr ⟨_, ran⟩⟩ rests
      next => exact Begins.nothing
    next => exact Begins.nothing
  | receive message =>
    dsimp only
    split
    next idle =>
      split
      next frame decoded => exact dispatch_begins idle.1 registered (sound frame decoded)
      next => exact Begins.nothing
    next => exact Begins.nothing
  | readError =>
    dsimp only
    split
    next idle => exact Begins.load _ _ idle.1 (Fresh.one id (by simp [Job.stream]))
    next => exact Begins.nothing

/-! ### The invariant -/

structure Inv (p : Process) : Prop where
  coherent : Coherent p.core p.jobs
  ordered : ∀ stack ∈ p.stacks, stack.Pairwise Job.Above
  honest : p.Honest

theorem inv_start (cfg : Config) : Inv (newProcess cfg) where
  coherent := coherent_start cfg
  ordered := by simp [newProcess, Process.stacks]
  honest := by simp [newProcess, Process.Honest]

theorem Settled.mono {jobs more : List Job} (settled : Settled c jobs job)
    (sub : ∀ x ∈ jobs, x ∈ more) : Settled c more job := by
  unfold Settled at settled ⊢
  split at settled
  case h_6 => exact fun st present locked => (settled st present locked).imp fun _ => sub _
  all_goals exact settled

theorem Inv.ran {p q : Process} (inv : Inv p) (ran : Ran p q) : Inv q := by
  obtain @⟨before, after, job, rest, delivered, outcome, was, isNow, core, honest, sound, ran⟩ :=
    ran
  have member (x : Job) :
      x ∈ p.jobs ↔ x = job ∨ x ∈ before.flatten ∨ x ∈ rest ∨ x ∈ after.flatten := by
    simp only [Process.jobs, was, List.flatten_append, List.flatten_cons, List.mem_append,
      List.mem_cons]
    tauto
  have memberNow (x : Job) :
      x ∈ q.jobs ↔
        x ∈ outcome.continues ∨ x ∈ before.flatten ∨ x ∈ rest ∨ x ∈ after.flatten := by
    simp only [Process.jobs, isNow, List.flatten_append, List.flatten_cons, List.mem_append]
    tauto
  constructor
  · obtain ⟨added, settled⟩ :=
      inv.coherent.exec ((member job).mpr (Or.inl rfl)) sound ran
    rw [core]
    apply added.settle
    · intro x isIn
      rw [memberNow] at isIn
      rw [List.mem_append, member]
      tauto
    · intro x isIn
      rw [List.mem_append, member] at isIn
      rw [memberNow]
      rcases isIn with new | rfl | old
      · exact Or.inl (Or.inl new)
      · exact Or.inr (settled.mono fun x isNew => (memberNow x).mpr (Or.inl isNew))
      · exact Or.inl (Or.inr old)
  · intro stack isIn
    rw [isNow] at isIn
    have inOrder := inv.ordered
    simp only [was, List.mem_append, List.mem_cons] at inOrder isIn
    rcases isIn with old | rfl | old
    · exact inOrder stack (Or.inl old)
    · exact ordered_ran (inOrder _ (Or.inr (Or.inl rfl))) sound ran
    · exact inOrder stack (Or.inr (Or.inr old))
  · exact honest inv.honest

theorem Coherent.perm {jobs more : List Job} (coherent : Coherent c jobs)
    (same : ∀ x, x ∈ more ↔ x ∈ jobs) : Coherent c more :=
  coherent.settle (fun x => (same x).mp) fun x isIn => Or.inl ((same x).mpr isIn)

theorem Coherent.begin {jobs more : List Job} (coherent : Coherent c jobs)
    (fresh : Fresh c more) : Coherent c (more ++ jobs) :=
  coherent.add (fun _ isIn => fresh.begins _ isIn trivial)
    (fun isIn => fresh.begins _ isIn trivial) fresh.refs

theorem Inv.begins {p q : Process} (inv : Inv p) (begins : Begins p q) : Inv q := by
  cases begins with
  | nothing => exact inv
  | call call fresh =>
    constructor
    · apply (inv.coherent.begin fresh).perm
      intro x
      simp only [Process.jobs, Process.stacks, List.map_append, List.map_cons, List.map_nil,
        List.flatten_cons, List.flatten_append, List.flatten_nil, List.append_nil,
        List.mem_append]
      tauto
    · intro stack isIn
      simp only [Process.stacks, List.map_append, List.map_cons, List.map_nil,
        List.mem_cons, List.mem_append, List.not_mem_nil, or_false] at isIn
      rcases isIn with own | old | rfl
      · exact inv.ordered stack (List.mem_cons.mpr (Or.inl own))
      · exact inv.ordered stack (List.mem_cons_of_mem _ old)
      · exact fresh.ordered
    · intro g isIn
      rcases List.mem_append.mp isIn with old | new
      · exact inv.honest g old
      · cases List.mem_singleton.mp new
        exact call_honest call
  | load more ended idle fresh =>
    constructor
    · apply (inv.coherent.begin fresh).perm
      simp [Process.jobs, Process.stacks, idle]
    · intro stack isIn
      rcases List.mem_cons.mp isIn with rfl | old
      · exact fresh.ordered
      · exact inv.ordered stack (List.mem_cons_of_mem _ old)
    · exact inv.honest
  | create id openMeta idle spare streams =>
    have created := inv.coherent.create openMeta spare streams
    have added : Coherent (p.core.create id openMeta)
        ([.acceptSend { id, gen := p.core.gens id }] ++ p.jobs) :=
      created.add (by simp) (by simp) (by simp [Job.stream])
    constructor
    · apply added.perm
      simp [Process.jobs, Process.stacks, idle]
    · intro stack isIn
      rcases List.mem_cons.mp isIn with rfl | old
      · exact List.pairwise_singleton _ _
      · exact inv.ordered stack (List.mem_cons_of_mem _ old)
    · exact inv.honest

/-- Every sound event keeps the invariant. -/
theorem Inv.step {p : Process} {event : Event} (inv : Inv p) (sound : Sound p event) :
    Inv (step p event) := by
  by_cases runs : Runs p event
  · exact inv.ran (step_ran inv.coherent.running sound runs)
  · apply inv.begins
    apply step_begins inv.coherent.running _ sound runs
    exact fun id r found => (inv.coherent.registered id r found).2

/-! ### At rest -/

/-- Why a job waits. -/
def Job.Blocked (c : Core) : Job → Prop
  | .accept | .acceptSend _ => c.session.closed = false
  | .read r _ => ∃ st, c.heap r = some st ∧ st.rerr = none
  | .onStream r (.teardown _) => c.tearing r = true
  | .onStream r (.write _) =>
    ∃ st, c.heap r = some st ∧ (st.smu = true ∨ st.serr = none)
  | .onStream r op => sendLocks op = true ∧ ∃ st, c.heap r = some st ∧ st.smu = true
  | .closeWithErr _ => c.once = .running
  | _ => False

theorem exec_blocked
    (refs : ∀ r, job.stream = some r → (c.heap r).isSome) (written : ∀ r, job ≠ .writeFailed r)
    (waits : ∀ delivered, c.exec delivered job = none) : job.Blocked c := by
  cases job with
  | openStream openMeta =>
    have := waits true
    simp only [Core.exec] at this
    split at this <;> cases this
  | accept | acceptSend r =>
    have := waits true
    simp only [Core.exec] at this
    split at this
    · cases this
    split at this
    · cases this
    · simp_all [Job.Blocked]
  | read r n =>
    obtain ⟨st, present⟩ := Option.isSome_iff_exists.mp (refs r rfl)
    have := waits true
    simp only [Core.exec, present, Option.bind_some, Option.map_eq_none_iff] at this
    refine ⟨st, present, ?_⟩
    simp only [GoStream.read] at this
    split at this
    · split at this
      · cases this
      · assumption
    · split at this <;> cases this
  | onStream r op =>
    obtain ⟨st, present⟩ := Option.isSome_iff_exists.mp (refs r rfl)
    cases op with
    | write p =>
      have := waits true
      simp only [Core.exec, Core.critical, present, Option.bind_some,
        Option.map_eq_none_iff, GoStream.exec] at this
      refine ⟨st, present, ?_⟩
      split at this
      case isTrue locked => exact Or.inl locked
      case isFalse =>
        split at this
        next => cases this
        next waits =>
          right
          by_contra failed
          simp [GoStream.writeNext, failed] at waits
        next => cases this
    | writing p =>
      have := waits false
      simp [Core.exec] at this
    | teardown err =>
      have := waits true
      simp only [Core.exec, Core.teardown] at this
      split at this
      next tearing => exact tearing
      next => simp [present] at this
    | _ =>
      have := waits true
      simp only [Core.exec, Core.critical, present, Option.bind_some,
        Option.map_eq_none_iff, GoStream.exec] at this
      (repeat' split at this) <;>
        first | contradiction | exact ⟨rfl, st, present, by assumption⟩
  | writeFailed r => exact absurd rfl (written r)
  | closeWithErr err =>
    have := waits true
    simp only [Core.exec] at this
    split at this
    · assumption
    · cases this
    · cases this
  | _ =>
    have := waits true
    cases this

/-- At rest, every job is blocked or stands below one that is. -/
theorem Inv.heads (inv : Inv p) (rest : Quiescent p)
    (isIn : job ∈ p.jobs) : ∃ head, head.Blocked p.core ∧ (head = job ∨ head.Above job) := by
  obtain ⟨stack, isStack, inStack⟩ := List.mem_flatten.mp isIn
  cases stack with
  | nil => cases inStack
  | cons head below =>
    have isJob : head ∈ p.jobs := List.mem_flatten.mpr ⟨_, isStack, List.mem_cons_self⟩
    rcases rest with panicked | waits
    · simp [inv.coherent.running] at panicked
    · refine ⟨head, ?_, ?_⟩
      · apply exec_blocked
        · exact inv.coherent.refs head isJob
        · intro r is
          exact inv.coherent.written r (is ▸ isJob)
        · exact waits head below isStack
      · rcases List.mem_cons.mp inStack with rfl | isBelow
        · exact Or.inl rfl
        · exact Or.inr (List.rel_of_pairwise_cons (inv.ordered _ isStack) isBelow)

theorem Inv.unlocked (inv : Inv p) (rest : Quiescent p) (r : Ref) (st : GoStream)
    (present : p.core.heap r = some st) : st.smu = false := by
  by_contra locked
  obtain ⟨bytes, writing⟩ :=
    inv.coherent.sending r st present (by simpa using locked)
  obtain ⟨head, blocked, rfl | above⟩ := inv.heads rest writing
  · simp [Job.Blocked, sendLocks] at blocked
  · exact above.shared.2 trivial

/-- No stream is left half torn down. -/
theorem Inv.untorn (inv : Inv p) (rest : Quiescent p) (r : Ref) :
    p.core.tearing r = false := by
  by_contra tearing
  obtain ⟨head, blocked, rfl | above⟩ :=
    inv.heads rest (inv.coherent.tearing r (by simpa using tearing))
  · exact blocked
  · have tears := above.tears r rfl
    cases head with
    | onStream other op =>
      cases op with
      | teardownSend err =>
        obtain ⟨-, st, present, locked⟩ := blocked
        simp [inv.unlocked rest other st present] at locked
      | _ => simp_all [Job.Tears, Job.Blocked, sendLocks]
    | _ => exact tears

theorem Inv.closed (inv : Inv p) (rest : Quiescent p) : p.core.once ≠ .running := by
  intro running
  obtain ⟨head, blocked, rfl | above⟩ := inv.heads rest (inv.coherent.closing running)
  · exact blocked
  · have closes := above.closes rfl
    cases head with
    | onStream other op =>
      cases op with
      | teardown err => simp [Job.Blocked, inv.untorn rest] at blocked
      | teardownSend err =>
        obtain ⟨-, st, present, locked⟩ := blocked
        simp [inv.unlocked rest other st present] at locked
      | _ => simp_all [Job.Closes, Job.Blocked, sendLocks]
    | _ => first | exact blocked | exact closes

/-- Only calls and the read loop wait at rest. -/
theorem Inv.alone {p : Process} (inv : Inv p) (rest : Quiescent p) {job : Job}
    (isIn : job ∈ p.jobs) : job.Alone ∧ job.Blocked p.core := by
  obtain ⟨head, blocked, is⟩ := inv.heads rest isIn
  have alone : head.Alone := by
    cases head with
    | onStream r op =>
      cases op with
      | write p => trivial
      | teardown err => simp [Job.Blocked, inv.untorn rest] at blocked
      | _ =>
        obtain ⟨-, st, present, locked⟩ := blocked
        simp [inv.unlocked rest r st present] at locked
    | closeWithErr err => exact absurd blocked (inv.closed rest)
    | _ => trivial
  rcases is with rfl | above
  · exact ⟨alone, blocked⟩
  · exact absurd alone above.shared.1

/-- A session at rest after a failed write has ended. -/
theorem Inv.ended {p : Process} (inv : Inv p) (rest : Quiescent p)
    (hasFailed : p.core.failed = true) : Ended p := by
  have gone (job : Job) (shared : ¬ job.Alone) : job ∉ p.jobs :=
    fun isIn => shared (inv.alone rest isIn).1
  have begun : p.core.once ≠ .free := by
    rcases inv.coherent.failing hasFailed with begun | ⟨err, isIn⟩
    · exact begun
    · exact absurd isIn (gone _ id)
  have once : p.core.once = .done := by
    have := inv.closed rest
    cases is : p.core.once <;> simp_all
  have closed : p.core.session.closed = true := by
    by_contra isOpen
    exact begun (inv.coherent.closed.mpr (by simpa using isOpen))
  have streams : p.core.session.streams = ∅ := by
    rcases inv.coherent.dropping begun with ⟨err, isIn⟩ | empty
    · exact absurd isIn (gone _ id)
    · exact empty
  have torn (r : Ref) (st : GoStream) (present : p.core.heap r = some st) : TornDown st := by
    have torn : st.closeOnce = true := by
      rcases inv.coherent.live r st present with registered | torn | ⟨err, isIn⟩
      · simp [streams] at registered
      · exact torn
      · exact absurd isIn (gone _ id)
    refine ⟨?_, ?_, ?_⟩
    · rcases inv.coherent.recv r st present torn with failed | ⟨err, isIn⟩
      · exact failed
      · exact absurd isIn (gone _ id)
    · rcases inv.coherent.send r st present torn with failed | ⟨err, isIn⟩
      · exact failed
      · exact absurd isIn (gone _ id)
    · rcases inv.coherent.signals r st present torn with ended | isIn
      · exact ended
      · exact absurd isIn (gone _ id)
  have empty (stack : List Job) (isIn : stack ∈ p.stacks) : stack = [] := by
    apply List.eq_nil_iff_forall_not_mem.mpr
    intro job inStack
    obtain ⟨alone, blocked⟩ := inv.alone rest (List.mem_flatten.mpr ⟨stack, isIn, inStack⟩)
    cases job with
    | accept | acceptSend r => simp [Job.Blocked, closed] at blocked
    | read r n =>
      obtain ⟨st, present, fine⟩ := blocked
      exact (torn r st present).1 fine
    | onStream r op =>
      cases op with
      | write bytes =>
        obtain ⟨st, present, locked | fine⟩ := blocked
        · simp [inv.unlocked rest r st present] at locked
        · exact (torn r st present).2.1 fine
      | writing bytes => simp [Job.Blocked, sendLocks] at blocked
      | _ => exact alone
    | _ => exact alone
  have shut : p.core.transportClosed = true := by
    rcases inv.coherent.transport begun with isIn | shut
    · exact absurd isIn (gone _ id)
    · exact shut
  have returned (g : Goroutine) (isIn : g ∈ p.threads) : g.jobs = [] :=
    empty _ (List.mem_cons_of_mem _ (List.mem_map.mpr ⟨g, isIn, rfl⟩))
  constructor
  · exact ⟨closed, once, shut⟩
  · exact streams
  · exact torn
  · exact empty _ List.mem_cons_self
  · intro g isIn
    refine ⟨returned g isIn, ?_⟩
    intro answers
    rcases inv.honest g isIn answers with ⟨-, -, job, is, -⟩ | ⟨known, -⟩
    · simp [returned g isIn] at is
    · exact known
  · intro g isIn isFailed reports
    have answers : g.call.answers = true := by
      cases is : g.call <;> simp_all [Call.answers, Call.reports]
    rcases inv.honest g isIn answers with ⟨-, fine, -⟩ | ⟨-, known⟩
    · simp [isFailed] at fine
    · exact (known reports).2 isFailed
  · intro job delivered outcome ran ok
    exact ended_refuses closed (inv.coherent.reason closed) shut torn ran ok

end HelixKit.Stream.Failing
