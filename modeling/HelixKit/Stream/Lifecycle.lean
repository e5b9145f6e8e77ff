/-
Purpose: The life of one stream between OPEN and teardown: a stream speaks only
  once it is announced, its goroutines tear it down before they forget it, and
  a stream that was never torn down is still registered.
Trusted boundary: none
-/
import HelixKit.Lib.History
import HelixKit.Stream.Strand

namespace HelixKit.Stream

open HelixKit.Duplex HelixKit.History

/-- The branches of `GoStream.exec`. -/
inductive GoStream.Exec (maxChunk : Nat) (transportClosed : Bool) (st : GoStream) :
    StreamOp → StreamEffect → Prop where
  | writeReturns {p : Bytes} :
      Exec maxChunk transportClosed st (.write p) { stream := st }
  | writeSends {p : Bytes} (free : st.smu = false) (sends : st.writeNext p = .sends) :
      Exec maxChunk transportClosed st (.write p)
        { stream := { st with smu := true }, continues := [.writing p] }
  | writingFailed {p : Bytes} (disconnected : transportClosed = true) :
      Exec maxChunk transportClosed st (.writing p)
        { stream := { st with serr := some .transport, smu := false } }
  | writingReturns {p : Bytes} (connected : transportClosed = false) :
      Exec maxChunk transportClosed st (.writing p)
        { stream := { st with window := st.window - st.chunk maxChunk p, smu := false }
          data := some (p.take (st.chunk maxChunk p)) }
  | writingWaits {p : Bytes} (connected : transportClosed = false) :
      Exec maxChunk transportClosed st (.writing p)
        { stream := { st with window := st.window - st.chunk maxChunk p, smu := false }
          continues := [.write (p.drop (st.chunk maxChunk p))]
          data := some (p.take (st.chunk maxChunk p)) }
  | writingSends {p : Bytes} (connected : transportClosed = false)
      (sends : GoStream.writeNext { st with window := st.window - st.chunk maxChunk p }
        (p.drop (st.chunk maxChunk p)) = .sends) :
      Exec maxChunk transportClosed st (.writing p)
        { stream := { st with window := st.window - st.chunk maxChunk p }
          continues := [.writing (p.drop (st.chunk maxChunk p))]
          data := some (p.take (st.chunk maxChunk p)) }
  | closeWriteAgain (free : st.smu = false) (ended : st.sdone = true ∨ st.serr ≠ none) :
      Exec maxChunk transportClosed st .closeWrite { stream := st }
  | closeWrite (free : st.smu = false) (notYet : st.sdone = false)
      (working : st.serr = none) :
      Exec maxChunk transportClosed st .closeWrite
        { stream := { st with sdone := true }, sendEnd := true }
  | teardownAgain {err : StreamErr} (again : st.closeOnce = true) :
      Exec maxChunk transportClosed st (.teardown err) { stream := st }
  | teardown {err : StreamErr} (first : st.closeOnce = false) :
      Exec maxChunk transportClosed st (.teardown err)
        { stream := { st with closeOnce := true }
          continues := [.teardownRecv err, .teardownSend err, .closeSignals] }
  | teardownRecv {err : StreamErr} :
      Exec maxChunk transportClosed st (.teardownRecv err)
        { stream := { st with rerr := st.rerr <|> some err } }
  | teardownSend {err : StreamErr} (free : st.smu = false) :
      Exec maxChunk transportClosed st (.teardownSend err)
        { stream := { st with serr := st.serr <|> some err } }
  | closeSignals :
      Exec maxChunk transportClosed st .closeSignals
        { stream := { st with signalsClosed := true } }
  | onData {data : Bytes} (working : st.rerr = none) (notYet : st.reof = false) :
      Exec maxChunk transportClosed st (.onData data)
        { stream := { st with rbuf := st.rbuf ++ data } }
  | onDataDropped {data : Bytes} (ended : st.rerr ≠ none ∨ st.reof = true) :
      Exec maxChunk transportClosed st (.onData data) { stream := st }
  | onEnd : Exec maxChunk transportClosed st .onEnd { stream := { st with reof := true } }
  | onCredit {n : UInt32} (free : st.smu = false) :
      Exec maxChunk transportClosed st (.onCredit n)
        { stream := { st with window := st.window + n.toNat } }
  | onSignal {payload : Bytes} {signals : List Bytes} {panics : Bool} :
      Exec maxChunk transportClosed st (.onSignal payload)
        { stream := { st with signals }, panics }

theorem GoStream.exec_cases {maxChunk : Nat} {transportClosed : Bool} {st : GoStream}
    {op : StreamOp} {effect : StreamEffect}
    (ran : st.exec maxChunk transportClosed op = some effect) :
    st.Exec maxChunk transportClosed op effect := by
  cases op with
  | write p =>
    simp only [GoStream.exec] at ran
    split at ran
    · cases ran
    next free =>
      split at ran <;> cases ran
      · exact .writeReturns
      next sends => exact .writeSends (Bool.eq_false_of_not_eq_true free) sends
  | writing p =>
    simp only [GoStream.exec] at ran
    split at ran
    next disconnected =>
      cases ran
      exact .writingFailed disconnected
    next connected =>
      have connected := Bool.eq_false_of_not_eq_true connected
      split at ran <;> cases ran
      · exact .writingReturns connected
      · exact .writingWaits connected
      next sends => exact .writingSends connected sends
  | closeWrite =>
    simp only [GoStream.exec] at ran
    split at ran
    · cases ran
    next free =>
      have free := Bool.eq_false_of_not_eq_true free
      split at ran <;> cases ran
      next ended => exact .closeWriteAgain free ended
      next working =>
        rw [not_or, not_not] at working
        exact .closeWrite free (Bool.eq_false_of_not_eq_true working.1) working.2
  | teardown err =>
    simp only [GoStream.exec] at ran
    split at ran <;> cases ran
    next again => exact .teardownAgain again
    next first => exact .teardown (Bool.eq_false_of_not_eq_true first)
  | teardownRecv err =>
    cases ran
    exact .teardownRecv
  | teardownSend err =>
    simp only [GoStream.exec] at ran
    split at ran <;> cases ran
    next free => exact .teardownSend (Bool.eq_false_of_not_eq_true free)
  | closeSignals =>
    cases ran
    exact .closeSignals
  | onData data =>
    simp only [GoStream.exec] at ran
    split at ran <;> cases ran
    next working => exact .onData working.1 working.2
    next ended =>
      refine .onDataDropped ?_
      by_contra neither
      rw [not_or, not_not, Bool.not_eq_true] at neither
      exact ended neither
  | onEnd =>
    cases ran
    exact .onEnd
  | onCredit n =>
    simp only [GoStream.exec] at ran
    split at ran <;> cases ran
    next free => exact .onCredit (Bool.eq_false_of_not_eq_true free)
  | onSignal payload =>
    simp only [GoStream.exec] at ran
    split at ran
    · cases ran
      exact .onSignal
    · split at ran <;> cases ran <;> exact .onSignal

/-- The branches of `GoStream.read`. -/
inductive GoStream.Reads (creditThreshold n : Nat) (st : GoStream) : ReadStep → Prop where
  | failed {err : StreamErr} (empty : st.rbuf = []) (failing : st.rerr = some err) :
      Reads creditThreshold n st { stream := st, result := .failed err }
  | eof (empty : st.rbuf = []) (working : st.rerr = none) (ended : st.reof = true) :
      Reads creditThreshold n st { stream := st, result := .eof }
  | grants (some : st.rbuf ≠ [])
      (enough : creditThreshold ≤ st.unacked + (st.rbuf.take n).length) :
      Reads creditThreshold n st
        { stream := { st with rbuf := st.rbuf.drop n, unacked := 0 }
          result := .bytes (st.rbuf.take n)
          grant := st.unacked + (st.rbuf.take n).length }
  | keeps (some : st.rbuf ≠ [])
      (few : st.unacked + (st.rbuf.take n).length < creditThreshold) :
      Reads creditThreshold n st
        { stream :=
            { st with
              rbuf := st.rbuf.drop n
              unacked := st.unacked + (st.rbuf.take n).length }
          result := .bytes (st.rbuf.take n) }

theorem GoStream.read_cases {creditThreshold n : Nat} {st : GoStream} {step : ReadStep}
    (ran : st.read creditThreshold n = some step) : st.Reads creditThreshold n step := by
  simp only [GoStream.read] at ran
  split at ran
  next empty =>
    split at ran
    next err failing =>
      cases ran
      exact .failed empty failing
    next working =>
      split at ran <;> cases ran
      next ended => exact .eof empty working ended
  next some =>
    split at ran <;> cases ran
    next enough => exact .grants some enough
    next few => exact .keeps some (Nat.lt_of_not_le few)

/-- A task that leads to a frame. -/
def Task.Speaks : Task → Prop
  | .writeFrame _ _ _ | .onStream _ (.write _) | .onStream _ (.writing _)
  | .onStream _ .closeWrite => True
  | _ => False

/-- A task that the arrival of DATA or END sets the read loop. -/
def Task.Arrives : Task → Prop
  | .onStream _ (.onData _) | .onStream _ .onEnd => True
  | _ => False

/-- A task that a teardown has left to do. -/
def Task.Tears : Task → Prop
  | .onStream _ (.teardownRecv _) | .onStream _ (.teardownSend _) => True
  | _ => False

/-- Whether a goroutine forgets the stream before it tears it down. -/
def forgetsFirst : List Task → Bool
  | [] => false
  | .removeStream _ :: _ => true
  | .onStream _ (.teardown _) :: _ => false
  | _ :: rest => forgetsFirst rest

/-- Whether a history has an OPEN. -/
def Opened (history : List Frame) : Prop := ∃ frame ∈ history, frame.type = .fOpen

theorem Opened.mono {short long : List Frame} (opened : Opened short)
    (isPrefix : short <+: long) : Opened long := by
  obtain ⟨frame, member, isOpen⟩ := opened
  exact ⟨frame, isPrefix.subset member, isOpen⟩

theorem Opened.append {history : List Frame} (opened : Opened history)
    (later : List Frame) : Opened (history ++ later) :=
  opened.mono (List.prefix_append ..)

/-- OPEN is the first frame of a stream. -/
def OpensFirst (earlier : List Frame) (frame : Frame) : Prop :=
  frame.type ≠ .fOpen → Opened earlier

/-- The stream's `closeOnce` has run. -/
def Strand.ClosedOnce (x : Strand) : Prop :=
  ∃ handle, x.handle = some handle ∧ handle.stream.closeOnce = true

/-- A teardown has started on the stream, or on the whole session. -/
def Strand.Torn (x : Strand) : Prop := x.closed = true ∨ x.ClosedOnce

instance (x : Strand) : Decidable x.Torn :=
  decidable_of_iff
    (x.closed = true ∨ x.handle.map (fun handle => handle.stream.closeOnce) = some true)
    (by simp [Strand.Torn, Strand.ClosedOnce])

def Strand.goroutines (x : Strand) : Multiset (List Task) := x.loop ::ₘ x.threads

/-- What a goroutine's work on a stream tells about the stream. -/
structure Work (announced closed closedOnce : Prop) (tasks : List Task) : Prop where
  speaking : ∀ task ∈ tasks, task.Speaks → announced
  closing : .closeTransport ∈ tasks → closed
  tearing : ∀ task ∈ tasks, task.Tears → closedOnce
  forgetting : forgetsFirst tasks = true → closed ∨ closedOnce

/-- The life of one stream: `own` says that this side opens it. -/
structure Lifecycle (own : Prop) (x : Strand) (sent received : List Frame) : Prop where
  absent : x.handle = none → x.mapped = false ∧
    (∀ tasks ∈ x.goroutines, ∀ task ∈ tasks, task = .closeTransport) ∧
      sent = [] ∧ received = []
  opensFirst : own → Allowed OpensFirst sent
  held : own → ∀ {handle}, x.handle = some handle → handle.held = true → Opened sent
  remote : ¬ own → x.handle ≠ none → Opened received
  work : ∀ tasks ∈ x.goroutines,
    Work (own → Opened sent) (x.closed = true) x.ClosedOnce tasks
  arrivals : ∀ tasks ∈ x.threads, ∀ task ∈ tasks, ¬ task.Arrives
  transport : x.transportClosed = true → x.closed = true
  readFails : ∀ {handle}, x.handle = some handle → handle.stream.rerr ≠ none →
    handle.stream.closeOnce = true
  writeFails : ∀ {handle}, x.handle = some handle → handle.stream.serr ≠ none → x.Torn
  registered : x.handle ≠ none → x.mapped = false → x.Torn

section Work

variable {announced closed closedOnce announced' closed' closedOnce' : Prop}
variable {task : Task} {tasks rest more : List Task}

theorem Work.mono (work : Work announced closed closedOnce tasks)
    (stillAnnounced : announced → announced') (stillClosed : closed → closed')
    (stillClosedOnce : closedOnce → closedOnce') :
    Work announced' closed' closedOnce' tasks where
  speaking task member speaks := stillAnnounced (work.speaking task member speaks)
  closing member := stillClosed (work.closing member)
  tearing task member tears := stillClosedOnce (work.tearing task member tears)
  forgetting forgets := (work.forgetting forgets).imp stillClosed stillClosedOnce

theorem Work.nil : Work announced closed closedOnce [] where
  speaking := by simp
  closing := by simp
  tearing := by simp
  forgetting := by simp [forgetsFirst]

end Work

/-- What running one task of a stream can do to its life. -/
structure Strand.Lives (x : Strand) (task : Task) (ran : Strand) (more : List Task)
    (out : List Frame) : Prop where
  loop : ran.loop = x.loop
  threads : ran.threads = x.threads
  limits : ran.limits = x.limits
  closed : ran.closed = x.closed
  handle : ran.handle = none ↔ x.handle = none
  alone : x.handle = none → task = .closeTransport →
    ran.mapped = x.mapped ∧ more = [] ∧ out = []
  speaks : ∀ next ∈ more, next.Speaks → task.Speaks
  one : out = [] ∨ ∃ frame, out = [frame] ∧ (frame.type = .fOpen ∨ task.Speaks)
  held : ∀ {handle}, ran.handle = some handle → handle.held = true →
    (∃ before, x.handle = some before ∧ before.held = true) ∨ Opened out
  closing : .closeTransport ∉ more
  transport : ran.transportClosed = true →
    x.transportClosed = true ∨ task = .closeTransport
  tears : ∀ next ∈ more, next.Tears → ran.ClosedOnce
  closedOnce : x.ClosedOnce → ran.ClosedOnce
  forgets : ∀ rest, forgetsFirst (more ++ rest) = true →
    forgetsFirst (task :: rest) = true ∨ ran.ClosedOnce ∨ x.transportClosed = true
  arrivals : ∀ next ∈ more, ¬ next.Arrives
  readFails : ∀ {handle}, ran.handle = some handle → handle.stream.rerr ≠ none →
    (∃ before, x.handle = some before ∧ before.stream.rerr ≠ none) ∨ task.Tears
  writeFails : ∀ {handle}, ran.handle = some handle → handle.stream.serr ≠ none →
    (∃ before, x.handle = some before ∧ before.stream.serr ≠ none) ∨ task.Tears ∨
      x.transportClosed = true
  mapped : ran.mapped = false → x.mapped = false ∨
    ∀ rest, forgetsFirst (task :: rest) = true

theorem Strand.Runs.lives {id : UInt32} {x ran : Strand} {task : Task}
    {more : List Task} {out : List Frame} (runs : x.Runs id task ran more out) :
    x.Lives task ran more out := by
  cases runs with
  | writeFrame ofStream connected =>
    constructor <;> simp +contextual [Task.Speaks, forgetsFirst]
  | writeFailed disconnected =>
    constructor <;> simp +contextual [forgetsFirst]
  | openFrame present connected =>
    constructor <;>
      simp +contextual [forgetsFirst, present, Strand.ClosedOnce, Opened]
  | openFailed disconnected =>
    constructor <;>
      simp +contextual [forgetsFirst, disconnected, Task.Speaks, Task.Tears, Task.Arrives]
  | removeStream =>
    constructor <;> simp +contextual [forgetsFirst, Strand.ClosedOnce]
  | acceptSend => constructor <;> simp +contextual [forgetsFirst]
  | closeTransport => constructor <;> simp +contextual [forgetsFirst, Strand.ClosedOnce]
  | onStream present ran =>
    cases GoStream.exec_cases ran <;> constructor <;>
      simp +contextual [forgetsFirst, Strand.ClosedOnce, Opened, Task.Speaks,
        Task.Tears, Task.Arrives, *]

/-- What stays of a strand when one of its goroutines goes on. -/
structure Strand.Resumes (x : Strand) (tasks later : List Task) (ran after : Strand) :
    Prop where
  limits : after.limits = ran.limits
  handle : after.handle = ran.handle
  mapped : after.mapped = ran.mapped
  closed : after.closed = ran.closed
  transport : after.transportClosed = ran.transportClosed
  goroutines : ∃ others, x.goroutines = tasks ::ₘ others ∧
    after.goroutines = later ::ₘ others
  threads : ∀ other ∈ after.threads, other ∈ x.threads ∨
    other = later ∧ tasks ∈ x.threads
  loop : after.loop = x.loop ∧ tasks ∈ x.threads ∨ x.loop = tasks ∧ after.loop = later

theorem Strand.Goroutine.resumes {x ran : Strand} {tasks later : List Task}
    {put : List Task → Strand → Strand} (goroutine : x.Goroutine tasks put)
    (loop : ran.loop = x.loop) (threads : ran.threads = x.threads) :
    x.Resumes tasks later ran (put later ran) := by
  cases goroutine with
  | thread among =>
    next others =>
    refine ⟨rfl, rfl, rfl, rfl, rfl, ⟨x.loop ::ₘ others, ?_, ?_⟩, ?_,
      Or.inl ⟨loop, by simp [among]⟩⟩
    · rw [Strand.goroutines, among, Multiset.cons_swap]
    · rw [Strand.goroutines, loop, Multiset.cons_swap]
    · intro other member
      rcases Multiset.mem_cons.mp member with rfl | old
      · exact Or.inr ⟨rfl, by simp [among]⟩
      · exact Or.inl (by simp [among, old])
  | loop =>
    refine ⟨rfl, rfl, rfl, rfl, rfl, ⟨x.threads, rfl, by rw [← threads]; rfl⟩, ?_,
      Or.inr ⟨rfl, rfl⟩⟩
    intro other member
    exact Or.inl (threads ▸ member)

section Lifecycle

variable {own : Prop} {x after : Strand} {sent received out : List Frame}

theorem Strand.ClosedOnce.of_handle (closedOnce : x.ClosedOnce)
    (handle : after.handle = x.handle) : after.ClosedOnce := by
  obtain ⟨held, present, once⟩ := closedOnce
  exact ⟨held, handle ▸ present, once⟩

/-- A task of one goroutine runs. -/
theorem Lifecycle.run {task : Task} {rest more : List Task} {ran : Strand}
    (lifecycle : Lifecycle own x sent received) (lives : x.Lives task ran more out)
    (resumes : x.Resumes (task :: rest) (more ++ rest) ran after) :
    Lifecycle own after (sent ++ out) received := by
  obtain ⟨others, before, now⟩ := resumes.goroutines
  have here : task :: rest ∈ x.goroutines := by simp [before]
  have work := lifecycle.work _ here
  have elsewhere : ∀ tasks ∈ others, tasks ∈ x.goroutines := by
    intro tasks member
    simp [before, member]
  have closedOnce : x.ClosedOnce → after.ClosedOnce := fun once =>
    (lives.closedOnce once).of_handle resumes.handle
  have ranOnce : ran.ClosedOnce → after.ClosedOnce := fun once =>
    once.of_handle resumes.handle
  have closed : after.closed = x.closed := resumes.closed.trans lives.closed
  have torn : x.Torn → after.Torn := Or.imp (by rw [closed]; exact id) closedOnce
  constructor
  case absent =>
    intro none
    have nothing := lives.handle.mp (resumes.handle ▸ none)
    obtain ⟨unmapped, allClose, silent, deaf⟩ := lifecycle.absent nothing
    obtain ⟨mapped, noMore, noOut⟩ := lives.alone nothing (allClose _ here task (by simp))
    refine ⟨by rw [resumes.mapped, mapped, unmapped], ?_, by simp [silent, noOut], deaf⟩
    intro tasks member other inTasks
    rcases Multiset.mem_cons.mp (now ▸ member) with rfl | old
    · exact allClose _ here other (by simp_all)
    · exact allClose tasks (elsewhere tasks old) other inTasks
  case opensFirst =>
    intro isOwn
    rcases lives.one with rfl | ⟨frame, rfl, isOpen | speaks⟩
    · simpa using lifecycle.opensFirst isOwn
    · exact allowed_concat.mpr ⟨lifecycle.opensFirst isOwn, fun notOpen =>
        absurd isOpen notOpen⟩
    · exact allowed_concat.mpr ⟨lifecycle.opensFirst isOwn, fun _ =>
        work.speaking task (by simp) speaks isOwn⟩
  case held =>
    intro isOwn handle present held
    rcases lives.held (resumes.handle ▸ present) held with ⟨old, was, wasHeld⟩ | opened
    · exact (lifecycle.held isOwn was wasHeld).append out
    · obtain ⟨frame, member, isOpen⟩ := opened
      exact ⟨frame, List.mem_append_right _ member, isOpen⟩
  case remote =>
    intro isRemote some
    exact lifecycle.remote isRemote fun none =>
      some (resumes.handle.trans (lives.handle.mpr none))
  case work =>
    have announced : (own → Opened sent) → own → Opened (sent ++ out) :=
      fun opened isOwn => (opened isOwn).append out
    have isClosed : x.closed = true → after.closed = true := by rw [closed]; exact id
    intro tasks member
    rcases Multiset.mem_cons.mp (now ▸ member) with rfl | old
    · refine ⟨?_, ?_, ?_, ?_⟩
      · intro next inTasks speaks
        rcases List.mem_append.mp inTasks with inMore | inRest
        · exact announced (work.speaking task (by simp) (lives.speaks next inMore speaks))
        · exact announced (work.speaking next (by simp [inRest]) speaks)
      · intro inTasks
        rcases List.mem_append.mp inTasks with inMore | inRest
        · exact absurd inMore lives.closing
        · exact isClosed (work.closing (by simp [inRest]))
      · intro next inTasks tears
        rcases List.mem_append.mp inTasks with inMore | inRest
        · exact ranOnce (lives.tears next inMore tears)
        · exact closedOnce (work.tearing next (by simp [inRest]) tears)
      · intro forgets
        rcases lives.forgets rest forgets with before | once | disconnected
        · exact (work.forgetting before).imp isClosed closedOnce
        · exact Or.inr (ranOnce once)
        · exact Or.inl (isClosed (lifecycle.transport disconnected))
    · exact (lifecycle.work tasks (elsewhere tasks old)).mono announced isClosed closedOnce
  case arrivals =>
    intro tasks member next inTasks
    rcases resumes.threads tasks member with old | ⟨rfl, thread⟩
    · exact lifecycle.arrivals tasks old next inTasks
    · rcases List.mem_append.mp inTasks with inMore | inRest
      · exact lives.arrivals next inMore
      · exact lifecycle.arrivals _ thread next (by simp [inRest])
  case transport =>
    intro disconnected
    rw [closed]
    rcases lives.transport (resumes.transport ▸ disconnected) with old | rfl
    · exact lifecycle.transport old
    · exact work.closing (by simp)
  case readFails =>
    intro handle present failed
    have once : after.ClosedOnce := by
      rcases lives.readFails (resumes.handle ▸ present) failed with
        ⟨old, was, wasFailed⟩ | tears
      · exact closedOnce ⟨old, was, lifecycle.readFails was wasFailed⟩
      · exact closedOnce (work.tearing task (by simp) tears)
    obtain ⟨other, same, closeOnce⟩ := once
    rw [present, Option.some.injEq] at same
    exact same ▸ closeOnce
  case writeFails =>
    intro handle present failed
    rcases lives.writeFails (resumes.handle ▸ present) failed with
      ⟨old, was, wasFailed⟩ | tears | disconnected
    · exact torn (lifecycle.writeFails was wasFailed)
    · exact Or.inr (closedOnce (work.tearing task (by simp) tears))
    · exact torn (Or.inl (lifecycle.transport disconnected))
  case registered =>
    intro some unmapped
    rcases lives.mapped (resumes.mapped ▸ unmapped) with old | forgets
    · exact torn (lifecycle.registered
        (fun none => some (resumes.handle.trans (lives.handle.mpr none))) old)
    · exact torn (work.forgetting (forgets rest))

/-- Another goroutine starts. -/
theorem Lifecycle.spawn {tasks : List Task} (lifecycle : Lifecycle own x sent received)
    (work : Work (own → Opened sent) (x.closed = true) x.ClosedOnce tasks)
    (arrivals : ∀ task ∈ tasks, ¬ task.Arrives) (alone : x.handle = none → tasks = []) :
    Lifecycle own { x with threads := tasks ::ₘ x.threads } sent received := by
  have goroutines : Strand.goroutines { x with threads := tasks ::ₘ x.threads } =
      tasks ::ₘ x.goroutines := Multiset.cons_swap ..
  exact
    { lifecycle with
      absent := fun none => by
        obtain ⟨unmapped, allClose, silent, deaf⟩ := lifecycle.absent none
        refine ⟨unmapped, ?_, silent, deaf⟩
        rw [goroutines, alone none]
        simpa using allClose
      work := by
        rw [goroutines]
        intro other member
        rcases Multiset.mem_cons.mp member with rfl | old
        · exact work
        · exact lifecycle.work other old
      arrivals := by
        intro other member
        rcases Multiset.mem_cons.mp member with rfl | old
        · exact arrivals
        · exact lifecycle.arrivals other old }

theorem closing_quiet {id : UInt32} {err : StreamErr} {task : Task}
    (member : task ∈ x.closing id err) :
    ¬ task.Speaks ∧ ¬ task.Tears ∧ ¬ task.Arrives := by
  unfold Strand.closing at member
  split at member <;> simp at member
  · rcases member with rfl | rfl <;> simp [Task.Speaks, Task.Tears, Task.Arrives]
  · simp [member, Task.Speaks, Task.Tears, Task.Arrives]

/-- The session closes. -/
theorem Lifecycle.close {id : UInt32} {err : StreamErr} {tasks : List Task}
    (lifecycle : Lifecycle own x sent received)
    (resumes : x.Resumes tasks (x.closing id err ++ tasks)
      { x with closed := true, mapped := false } after) :
    Lifecycle own after sent received := by
  obtain ⟨others, before, now⟩ := resumes.goroutines
  have closed : after.closed = true := resumes.closed
  have closedOnce : x.ClosedOnce → after.ClosedOnce := fun once =>
    once.of_handle resumes.handle
  have here : tasks ∈ x.goroutines := by simp [before]
  have elsewhere : ∀ other ∈ others, other ∈ x.goroutines := by
    intro other member
    simp [before, member]
  constructor
  case absent =>
    intro none
    obtain ⟨unmapped, allClose, silent, deaf⟩ := lifecycle.absent (resumes.handle ▸ none)
    refine ⟨resumes.mapped, ?_, silent, deaf⟩
    intro other member task inTasks
    rcases Multiset.mem_cons.mp (now ▸ member) with rfl | old
    · simp only [Strand.closing, unmapped, Bool.false_eq_true, if_false, List.nil_append,
        List.mem_append, List.mem_singleton] at inTasks
      rcases inTasks with rfl | inRest
      · rfl
      · exact allClose _ here task inRest
    · exact allClose other (elsewhere other old) task inTasks
  case opensFirst => exact lifecycle.opensFirst
  case held => exact fun isOwn _ present => lifecycle.held isOwn (resumes.handle ▸ present)
  case remote => exact fun isRemote some =>
    lifecycle.remote isRemote fun none => some (resumes.handle.trans none)
  case work =>
    intro other member
    rcases Multiset.mem_cons.mp (now ▸ member) with rfl | old
    · have work := lifecycle.work _ here
      refine ⟨?_, fun _ => closed, ?_, fun _ => Or.inl closed⟩
      · intro task inTasks speaks
        rcases List.mem_append.mp inTasks with inClosing | inRest
        · exact absurd speaks (closing_quiet inClosing).1
        · exact work.speaking task inRest speaks
      · intro task inTasks tears
        rcases List.mem_append.mp inTasks with inClosing | inRest
        · exact absurd tears (closing_quiet inClosing).2.1
        · exact closedOnce (work.tearing task inRest tears)
    · exact (lifecycle.work other (elsewhere other old)).mono (fun announced => announced)
        (fun _ => closed) closedOnce
  case arrivals =>
    intro other member task inTasks arrives
    rcases resumes.threads other member with old | ⟨rfl, thread⟩
    · exact lifecycle.arrivals other old task inTasks arrives
    · rcases List.mem_append.mp inTasks with inClosing | inRest
      · exact (closing_quiet inClosing).2.2 arrives
      · exact lifecycle.arrivals _ thread task inRest arrives
  case transport => exact fun _ => closed
  case readFails => exact fun present => lifecycle.readFails (resumes.handle ▸ present)
  case writeFails => exact fun _ _ => Or.inl closed
  case registered => exact fun _ _ => Or.inl closed

/-- A change of the stream object that none of its life depends on. -/
theorem Lifecycle.setHandle {before handle : Handle}
    (lifecycle : Lifecycle own x sent received) (present : x.handle = some before)
    (closeOnce : handle.stream.closeOnce = before.stream.closeOnce)
    (rerr : handle.stream.rerr = before.stream.rerr)
    (serr : handle.stream.serr = before.stream.serr)
    (held : own → handle.held = true → before.held = true) :
    Lifecycle own { x with handle := some handle } sent received := by
  have once : Strand.ClosedOnce { x with handle := some handle } ↔ x.ClosedOnce := by
    simp [Strand.ClosedOnce, present, closeOnce]
  have torn : Strand.Torn { x with handle := some handle } ↔ x.Torn :=
    or_congr Iff.rfl once
  exact
    { lifecycle with
      absent := by simp
      held := by
        rintro isOwn other ⟨⟩ isHeld
        exact lifecycle.held isOwn present (held isOwn isHeld)
      remote := fun isRemote _ => lifecycle.remote isRemote (by simp [present])
      work := by
        intro tasks member
        exact (lifecycle.work tasks member).mono (fun announced => announced)
          (fun closed => closed) once.mpr
      readFails := by
        rintro other ⟨⟩ failed
        rw [closeOnce]
        exact lifecycle.readFails present (rerr ▸ failed)
      writeFails := by
        rintro other ⟨⟩ failed
        exact torn.mpr (lifecycle.writeFails present (serr ▸ failed))
      registered := fun _ unmapped =>
        torn.mpr (lifecycle.registered (by simp [present]) unmapped) }

/-- A stream is created under the strand's id. -/
theorem Lifecycle.create {initialWindow : Nat} {openMeta : Bytes}
    {later : List Frame} (lifecycle : Lifecycle own x sent received)
    (absent : x.handle = none)
    (handle : after.handle = some { stream := newStream initialWindow openMeta })
    (mapped : after.mapped = true) (closed : after.closed = x.closed)
    (transport : after.transportClosed = x.transportClosed)
    (work : ∀ tasks ∈ after.goroutines, tasks ∈ x.goroutines ∨
      Work (own → Opened sent) (x.closed = true) x.ClosedOnce tasks)
    (arrivals : ∀ tasks ∈ after.threads, tasks ∈ x.threads ∨
      ∀ task ∈ tasks, ¬ task.Arrives)
    (remote : ¬ own → Opened later) : Lifecycle own after sent later where
  absent := by simp [handle]
  opensFirst := lifecycle.opensFirst
  held := by
    intro isOwn other present
    rw [handle, Option.some.injEq] at present
    simp [← present]
  remote isRemote _ := remote isRemote
  work := by
    have none : ¬ x.ClosedOnce := by simp [Strand.ClosedOnce, absent]
    intro tasks member
    refine Work.mono ?_ (fun announced => announced) (by rw [closed]; exact id)
      (fun once => absurd once none)
    exact (work tasks member).elim (lifecycle.work tasks) id
  arrivals tasks member := (arrivals tasks member).elim (lifecycle.arrivals tasks) id
  transport := by
    rw [transport, closed]
    exact lifecycle.transport
  readFails := by
    intro other present
    rw [handle, Option.some.injEq] at present
    simp [← present, newStream]
  writeFails := by
    intro other present
    rw [handle, Option.some.injEq] at present
    simp [← present, newStream]
  registered := by simp [mapped]

end Lifecycle

/-- The work that a call starts is work of an announced stream. -/
theorem Call.work {id : UInt32} {tasks : List Task} {announced closed closedOnce : Prop}
    (called : Call id tasks) (spoken : announced) :
    Work announced closed closedOnce tasks := by
  refine ⟨fun _ _ _ => spoken, ?_, ?_, ?_⟩ <;> cases called <;>
    simp [Task.Tears, forgetsFirst]

theorem Call.arrivals {id : UInt32} {tasks : List Task} (called : Call id tasks) :
    ∀ task ∈ tasks, ¬ task.Arrives := by
  cases called <;> simp [Task.Arrives]

section Contract

variable {Fits : Nat → Handle → Nat → Prop} {own : Prop} {id : UInt32}
variable {sent received : List Frame}

/-- What arrives for a stream, whoever sends it: nothing before this side has
announced the stream, or OPEN first. -/
structure Hears (own : Prop) (sent received : List Frame) : Prop where
  announced : own → received ≠ [] → Opened sent
  opensFirst : ¬ own → Allowed OpensFirst received

theorem Rely.hears (rely : Rely (Lifecycle (¬ own)) sent received) :
    Hears own sent received := by
  obtain ⟨peer, peerSent, peerReceived, theirs, fromUs, toUs⟩ := rely
  constructor
  · intro isOwn heard
    refine Opened.mono (theirs.remote (not_not.mpr isOwn) fun absent => heard ?_) fromUs
    have silent := (theirs.absent absent).2.2.1
    exact List.prefix_nil.mp (silent ▸ toUs)
  · exact fun isRemote => (theirs.opensFirst isRemote).truncate toUs

theorem lifecycle_act {x after : Strand} {out : List Frame}
    (lifecycle : Lifecycle own x sent received) (step : x.Step Fits own id out after) :
    Lifecycle own after (sent ++ out) received := by
  cases step with
  | idle => simpa using lifecycle
  | run goroutine runs =>
    have lives := runs.lives
    exact lifecycle.run lives (goroutine.resumes lives.loop lives.threads)
  | close notYet goroutine =>
    rw [List.append_nil]
    exact lifecycle.close (goroutine.resumes rfl rfl)
  | startOther =>
    rw [List.append_nil]
    exact lifecycle.spawn .nil (by simp) (fun _ => rfl)
  | call present held called =>
    rw [List.append_nil]
    have announced : own → Opened sent := fun isOwn => lifecycle.held isOwn present held
    exact lifecycle.spawn (called.work announced) called.arrivals (by simp [present])
  | create _ isOwn absent =>
    rw [List.append_nil]
    refine lifecycle.create absent rfl rfl rfl rfl ?_ ?_ (absurd isOwn)
    · intro tasks member
      simp only [Strand.goroutines, Multiset.mem_cons] at member ⊢
      rcases member with loop | rfl | old
      · exact Or.inl (Or.inl loop)
      · refine Or.inr ⟨?_, ?_, ?_, ?_⟩ <;> simp [Task.Speaks, Task.Tears, forgetsFirst]
      · exact Or.inl (Or.inr old)
    · intro tasks member
      rcases Multiset.mem_cons.mp member with rfl | old
      · exact Or.inr (by simp [Task.Arrives])
      · exact Or.inl old
  | accept isRemote present =>
    rw [List.append_nil]
    exact lifecycle.setHandle present rfl rfl rfl fun isOwn => absurd isOwn isRemote
  | read present held fits ran =>
    next n handle step =>
    rw [List.append_nil]
    have kept : Lifecycle own
        { x with
          handle :=
            some
              { handle with
                stream := step.stream
                returned := handle.returned ++ step.result.data } } sent received := by
      refine lifecycle.setHandle present ?_ ?_ ?_ fun _ held => held <;>
        cases GoStream.read_cases ran <;> rfl
    unfold Strand.afterRead
    split
    · refine kept.spawn ⟨?_, ?_, ?_, ?_⟩ ?_ ?_
      · exact fun _ _ _ isOwn => lifecycle.held isOwn present held
      all_goals simp [Task.Tears, Task.Arrives, forgetsFirst]
    · exact kept

theorem lifecycle_receive {x after : Strand} {frame : Frame}
    (lifecycle : Lifecycle own x sent received)
    (hears : Hears own sent (received ++ [frame]))
    (arrived : x.Receive own id frame after) :
    Lifecycle own after sent (received ++ [frame]) := by
  have later : x.handle ≠ none → Lifecycle own x sent (received ++ [frame]) :=
    fun present =>
      { lifecycle with
        absent := fun absent => absurd absent present
        remote := fun isRemote some => (lifecycle.remote isRemote some).append _ }
  have startLoop : ∀ {tasks : List Task}, x.handle ≠ none →
      Work (own → Opened sent) (x.closed = true) x.ClosedOnce tasks →
        Lifecycle own { x with loop := tasks } sent (received ++ [frame]) := by
    intro tasks present work
    refine { later present with absent := fun absent => absurd absent present, work := ?_ }
    intro other member
    rcases Multiset.mem_cons.mp member with rfl | old
    · exact work
    · exact lifecycle.work other (by simp [Strand.goroutines, old])
  have presentOf : x.mapped = true → x.handle ≠ none := by
    intro mapped absent
    simp [(lifecycle.absent absent).1] at mapped
  cases arrived with
  | opened isOpen isRemote absent =>
    refine lifecycle.create absent rfl rfl rfl rfl ?_ (fun _ old => Or.inl old) ?_
    · intro tasks member
      rcases Multiset.mem_cons.mp member with rfl | old
      · refine Or.inr ⟨?_, ?_, ?_, ?_⟩ <;> simp [Task.Speaks, Task.Tears, forgetsFirst]
      · exact Or.inl (by simp [Strand.goroutines, old])
    · exact fun _ => ⟨frame, by simp, isOpen⟩
  | forward mapped isOp =>
    have kind : frame.type = .fData ∨ frame.type = .fEnd ∨ frame.type = .fSignal ∨
        frame.type = .fCredit := by
      unfold Frame.op at isOp
      split at isOp <;> simp_all
    refine startLoop (presentOf mapped) ⟨?_, ?_, ?_, ?_⟩ <;>
      rcases kind with kind | kind | kind | kind <;>
        simp only [Frame.op, kind, Option.some.injEq] at isOp <;> subst isOp <;>
          simp [Task.Speaks, Task.Tears, forgetsFirst]
  | reset isReset mapped =>
    refine startLoop (presentOf mapped) ⟨?_, ?_, ?_, ?_⟩ <;>
      simp [Task.Speaks, Task.Tears, forgetsFirst]
  | dropped notOpen unmapped =>
    refine later fun absent => ?_
    obtain ⟨-, -, silent, deaf⟩ := lifecycle.absent absent
    by_cases isOwn : own
    · obtain ⟨_, member, _⟩ := hears.announced isOwn (by simp)
      simp [silent] at member
    · have first := hears.opensFirst isOwn received frame (List.prefix_refl _) notOpen
      obtain ⟨_, member, _⟩ := first
      simp [deaf] at member

end Contract

end HelixKit.Stream
