/-
Purpose: What the calls on a failing Go session return: a call whose own
  transport write fails returns an error, no call is left without an answer, and
  an ended session answers with errors.
Trusted boundary: none
-/
import HelixKit.Stream.FailingSession

namespace HelixKit.Stream.Failing

/-- The job decides what its call returns; `reports` says that the call returns
the error of its transport write. -/
def Job.Decides (reports : Bool) : Job → Prop
  | .openStream _ | .openFrame _ _ | .accept | .writeFrame _ _ _ => True
  | .read _ _ => reports = false
  | .onStream _ (.write _) | .onStream _ (.writing _) | .onStream _ .closeWrite => True
  | _ => False

/-- The job cleans up: it writes nothing and answers nothing. -/
def Job.Cleanup : Job → Prop
  | .closeWithErr _ | .dropStreams _ | .closeTransport | .closeDone => True
  | .writeFailed _ | .teardownDone _ | .removeStream _ => True
  | .onStream _ (.teardown _) | .onStream _ (.teardownRecv _)
  | .onStream _ (.teardownSend _) | .onStream _ .closeSignals => True
  | _ => False

/-- The call waits for its answer with one job, or has it and cleans up. -/
def Goroutine.Honest (g : Goroutine) : Prop :=
  g.call.answers = true →
    (g.answer = none ∧ g.failed = false ∧
        ∃ job, g.jobs = [job] ∧ job.Decides g.call.reports) ∨
      (g.answer ≠ none ∧
        (g.call.reports = true →
          (∀ job ∈ g.jobs, job.Cleanup) ∧
            (g.failed = true → ∃ err, g.answer = some (.error err))))

theorem call_honest (call : Call) : Goroutine.Honest { call, jobs := call.jobs } := by
  intro answers
  left
  cases call <;> simp_all [Call.answers, Call.jobs, Call.reports, Job.Decides]

variable {c : Core} {job : Job} {delivered : Bool} {outcome : Outcome}

theorem exec_cleanup (cleanup : job.Cleanup) (ran : c.exec delivered job = some outcome) :
    (∀ next ∈ outcome.continues, next.Cleanup) ∧ outcome.failed = false := by
  cases job with
  | onStream r op =>
    cases op with
    | teardown err =>
      simp only [Core.exec, Core.teardown] at ran
      split at ran
      · cases ran
      · obtain ⟨st, -, rfl⟩ := Option.map_eq_some_iff.mp ran
        split <;> simp [Job.Cleanup]
    | teardownRecv err | closeSignals =>
      simp only [Core.exec, Core.critical, Option.bind_eq_some_iff,
        Option.map_eq_some_iff, GoStream.exec, Option.some.injEq] at ran
      obtain ⟨st, -, effect, rfl, rfl⟩ := ran
      simp
    | teardownSend err =>
      simp only [Core.exec, Core.critical, Option.bind_eq_some_iff,
        Option.map_eq_some_iff, GoStream.exec] at ran
      obtain ⟨st, -, effect, exec, rfl⟩ := ran
      split at exec <;> cases exec
      simp
    | _ => exact absurd cleanup id
  | writeFailed r =>
    simp only [Core.exec, Option.map_eq_some_iff] at ran
    obtain ⟨st, -, rfl⟩ := ran
    simp
  | closeWithErr err =>
    simp only [Core.exec] at ran
    split at ran <;> cases ran <;> simp [Job.Cleanup]
  | dropStreams err =>
    cases ran
    refine ⟨?_, rfl⟩
    intro next isIn
    obtain ⟨entry, -, rfl⟩ := List.mem_map.mp isIn
    trivial
  | teardownDone r | closeTransport | closeDone | removeStream id => cases ran; simp
  | _ => exact absurd cleanup id

/-- What follows a job that decides: another one, or an answer. -/
structure Decided (reports : Bool) (outcome : Outcome) : Prop where
  waits : outcome.answer = none →
    outcome.failed = false ∧ ∃ next, outcome.continues = [next] ∧ next.Decides reports
  cleanup : outcome.answer ≠ none → reports = true → ∀ next ∈ outcome.continues, next.Cleanup
  failed : outcome.failed = true → outcome.answer = some (.error .transport)

theorem send_decided (c : Core) (delivered reports : Bool) {later : List Job}
    (cleanup : ∀ next ∈ later, next.Cleanup) : Decided reports (c.send delivered later) := by
  unfold Core.send
  split
  · constructor <;> simp
  · constructor
    · simp
    · intro _ _ next isIn
      rcases List.mem_cons.mp isIn with rfl | isLater
      · trivial
      · exact cleanup next isLater
    · simp

theorem exec_decides {reports : Bool}
    (decides : job.Decides reports) (ran : c.exec delivered job = some outcome) :
    Decided reports outcome := by
  cases job with
  | openStream openMeta =>
    simp only [Core.exec] at ran
    split at ran <;> cases ran <;> constructor <;> simp [Job.Decides]
  | openFrame r openMeta =>
    cases ran
    exact send_decided c delivered reports (by simp [Job.Cleanup])
  | accept =>
    simp only [Core.exec] at ran
    split at ran
    · cases ran
      constructor <;> simp
    · split at ran <;> cases ran
      constructor <;> simp
  | read r n =>
    simp only [Core.exec, Option.bind_eq_some_iff, Option.map_eq_some_iff] at ran
    obtain ⟨st, -, taken, -, rfl⟩ := ran
    have quiet : reports = false := decides
    constructor <;> simp [quiet]
  | writeFrame type id payload =>
    cases ran
    exact send_decided c delivered reports (by simp)
  | onStream r op =>
    cases op with
    | write p | closeWrite =>
      simp only [Core.exec, Core.critical, Option.bind_eq_some_iff,
        Option.map_eq_some_iff, GoStream.exec] at ran
      obtain ⟨st, -, effect, exec, rfl⟩ := ran
      split at exec
      · cases exec
      · split at exec <;> cases exec <;> constructor <;> simp [sectionAnswer, Job.Decides]
    | writing p =>
      simp only [Core.exec] at ran
      split at ran
      · simp only [Core.critical, Option.bind_eq_some_iff, Option.map_eq_some_iff,
          GoStream.exec, Bool.false_eq_true, if_false] at ran
        obtain ⟨st, -, effect, exec, rfl⟩ := ran
        split at exec <;> cases exec <;> constructor <;> simp [sectionAnswer, Job.Decides]
      · cases ran
        exact send_decided c false reports (by simp [Job.Cleanup])
    | _ => exact absurd decides id
  | _ => exact absurd decides id

theorem Goroutine.Honest.ran {g : Goroutine} {c : Core} {job : Job} {rest : List Job}
    {delivered : Bool} {outcome : Outcome} (honest : g.Honest) (jobs : g.jobs = job :: rest)
    (ran : c.exec delivered job = some outcome) : (g.ran outcome rest).Honest := by
  intro answers
  have answers : g.call.answers = true := answers
  simp only [Goroutine.ran, answers, if_true]
  rcases honest answers with ⟨unknown, fine, only, is, decides⟩ | ⟨known, reports⟩
  · rw [jobs] at is
    simp only [List.cons.injEq] at is
    obtain ⟨rfl, rfl⟩ := is
    have decided := exec_decides decides ran
    simp only [unknown, fine, Option.orElse_eq_orElse, Option.orElse_eq_or, Option.none_or, Bool.false_or, List.append_nil]
    by_cases waits : outcome.answer = none
    · left
      exact ⟨waits, decided.waits waits⟩
    · right
      refine ⟨waits, ?_⟩
      intro reporting
      exact ⟨decided.cleanup waits reporting, fun failed => ⟨_, decided.failed failed⟩⟩
  · right
    obtain ⟨answer, is⟩ := Option.ne_none_iff_exists'.mp known
    simp only [is, Option.orElse_eq_orElse, Option.orElse_eq_or, Option.some_or] at reports ⊢
    refine ⟨by simp, ?_⟩
    intro reporting
    obtain ⟨cleanup, failed⟩ := reports reporting
    rw [jobs] at cleanup
    obtain ⟨more, fine⟩ := exec_cleanup (cleanup job List.mem_cons_self) ran
    constructor
    · intro next isIn
      rcases List.mem_append.mp isIn with new | old
      · exact more next new
      · exact cleanup next (List.mem_cons_of_mem _ old)
    · simpa [fine] using failed

/-- An ended session does nothing more for a call. -/
theorem ended_refuses (closed : c.session.closed = true) (reason : c.session.closeErr ≠ none)
    (shut : c.transportClosed = true) (torn : ∀ r st, c.heap r = some st → TornDown st)
    (ran : c.exec delivered job = some outcome) (ok : outcome.answer = some .ok) :
    job.Offline c := by
  cases job with
  | openStream openMeta =>
    simp only [Core.exec, closed, if_true, Option.some.injEq] at ran
    simp [← ran] at ok
  | openFrame r openMeta | writeFrame type id payload =>
    simp only [Core.exec, Core.send, shut, Option.some.injEq] at ran
    simp [← ran] at ok
  | accept =>
    simp only [Core.exec, closed, if_true] at ran
    split at ran
    next queued => simp [Job.Offline, queued]
    next =>
      obtain ⟨err, is⟩ := Option.ne_none_iff_exists'.mp reason
      simp only [Option.some.injEq] at ran
      simp [← ran, is, Answer.ofErr] at ok
  | read r n =>
    simp only [Core.exec, Option.bind_eq_some_iff, Option.map_eq_some_iff] at ran
    obtain ⟨st, present, taken, read, rfl⟩ := ran
    refine ⟨st, present, ?_⟩
    intro empty
    obtain ⟨err, is⟩ := Option.ne_none_iff_exists'.mp (torn r st present).1
    simp only [GoStream.read, empty, is, if_true, Option.some.injEq] at read
    simp [← read, readAnswer] at ok
  | onStream r op =>
    cases op with
    | write p =>
      simp only [Core.exec, Core.critical, Option.bind_eq_some_iff,
        Option.map_eq_some_iff, GoStream.exec] at ran
      obtain ⟨st, -, effect, exec, rfl⟩ := ran
      split at exec
      · cases exec
      split at exec <;> cases exec
      · by_contra some_
        simp [sectionAnswer, writeAnswer, show p ≠ [] from some_] at ok
      · simp [sectionAnswer] at ok
    | writing p =>
      simp only [Core.exec, shut, Bool.not_true, Bool.and_false, Bool.false_eq_true,
        if_false, Core.send, Option.some.injEq] at ran
      simp [← ran] at ok
    | closeWrite => trivial
    | teardown err =>
      simp only [Core.exec, Core.teardown] at ran
      split at ran
      · cases ran
      · obtain ⟨st, -, rfl⟩ := Option.map_eq_some_iff.mp ran
        split at ok <;> simp at ok
    | _ =>
      simp only [Core.exec, Core.critical, Option.bind_eq_some_iff,
        Option.map_eq_some_iff] at ran
      obtain ⟨st, -, effect, exec, rfl⟩ := ran
      simp [sectionAnswer] at ok
  | writeFailed r =>
    simp only [Core.exec, Option.map_eq_some_iff] at ran
    obtain ⟨st, -, rfl⟩ := ran
    simp at ok
  | closeWithErr err =>
    simp only [Core.exec] at ran
    split at ran <;> cases ran <;> simp at ok
  | acceptSend r =>
    simp only [Core.exec, closed, if_true] at ran
    split at ran <;> cases ran <;> simp at ok
  | _ =>
    cases ran
    simp at ok

end HelixKit.Stream.Failing
