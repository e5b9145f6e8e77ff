/-
Purpose: What a stream delivers.  The bytes that Read returns on one end are a
  prefix of the bytes that Write accepted on the other, and io.EOF comes only
  after all of them.
Trusted boundary: none
Main exports: reads_deliver
-/
import HelixKit.Stream.Lifecycle
import Mathlib.Algebra.Order.BigOperators.Group.Multiset

namespace HelixKit.Stream

open HelixKit.Duplex HelixKit.History

/-- The stream object of a strand; a stream that is yet to be created is new. -/
def Strand.view (x : Strand) : Handle :=
  x.handle.getD { stream := newStream x.limits.initialWindow [] }

/-- The total weight of the work of all goroutines. -/
def Strand.load (x : Strand) (weight : Task → Nat) : Nat :=
  (x.goroutines.map fun tasks => (tasks.map weight).sum).sum

/-- A `Write` that holds the send mutex. -/
def Task.writing : Task → Nat
  | .onStream _ (.writing _) => 1
  | _ => 0

/-- What the frames that goroutines have yet to write can be: no DATA, and END
only once CloseWrite has marked the stream. -/
def Task.Writes (done : Prop) : Task → Prop
  | .writeFrame type _ _ => type ≠ .fData ∧ (type = .fEnd → done)
  | _ => True

/-- Whether a history has an END. -/
def Ended (history : List Frame) : Prop := ∃ frame ∈ history, frame.type = .fEnd

theorem Ended.mono {short long : List Frame} (ended : Ended short)
    (isPrefix : short <+: long) : Ended long := by
  obtain ⟨frame, member, isEnd⟩ := ended
  exact ⟨frame, isPrefix.subset member, isEnd⟩

/-- No DATA after END. -/
def EndsLast (earlier : List Frame) (frame : Frame) : Prop :=
  frame.type = .fData → ¬ Ended earlier

/-- Once END has gone by, the data are complete. -/
theorem dataOf_eq_of_ended {short long : List Frame} (order : Allowed EndsLast long)
    (isPrefix : short <+: long) (ended : Ended short) : dataOf short = dataOf long := by
  obtain ⟨rest, rfl⟩ := isPrefix
  induction rest using List.reverseRecOn with
  | nil => simp
  | append_singleton rest frame hypothesis =>
    rw [← List.append_assoc] at order ⊢
    obtain ⟨before, last⟩ := allowed_concat.mp order
    rw [dataOf_append, ← hypothesis before]
    have noData : frame.type ≠ .fData := fun isData =>
      last isData (ended.mono (List.prefix_append ..))
    simp [dataOf, noData]

/-- The sending half of a stream against what it has sent. -/
structure SendHalf (x : Strand) (sent : List Frame) : Prop where
  accepted : dataOf sent = x.view.accepted
  writers : x.load Task.writing = x.view.stream.smu.toNat
  locked : x.view.stream.smu = true →
    x.view.stream.sdone = false ∧ x.view.stream.serr = none
  writes : ∀ tasks ∈ x.goroutines, ∀ task ∈ tasks,
    task.Writes (x.view.stream.sdone = true)
  ended : Ended sent → x.view.stream.sdone = true
  order : Allowed EndsLast sent

/-- The DATA that the read loop has yet to hand to the stream. -/
def Task.arriving : Task → Bytes
  | .onStream _ (.onData data) => data
  | _ => []

def Strand.arriving (x : Strand) : Bytes := x.loop.flatMap Task.arriving

/-- An END that the read loop has yet to hand to the stream. -/
def Task.Ends : Task → Prop
  | .onStream _ .onEnd => True
  | _ => False

/-- The receiving half of a stream against what has arrived.  The data are whole
as long as the stream is registered, and stay whole once END has come. -/
structure RecvHalf (x : Strand) (received : List Frame) : Prop where
  returned : x.view.returned ++ x.view.stream.rbuf <+: dataOf received
  coming : x.view.stream.rerr = none →
    x.view.returned ++ x.view.stream.rbuf ++ x.arriving <+: dataOf received
  whole : x.view.stream.rerr = none →
    (x.mapped = true ∨ x.view.stream.reof = true ∨ ∃ task ∈ x.loop, task.Ends) →
      x.view.returned ++ x.view.stream.rbuf ++ x.arriving = dataOf received
  ended : (x.view.stream.reof = true ∨ ∃ task ∈ x.loop, task.Ends) → Ended received
  notYet : x.arriving ≠ [] → ¬ Ended received

/-- One end of a stream delivers what it says. -/
structure Delivery (own : Prop) (x : Strand) (sent received : List Frame) : Prop where
  life : Lifecycle own x sent received
  send : SendHalf x sent
  recv : RecvHalf x received

theorem Strand.Resumes.load {x ran after : Strand} {tasks later : List Task}
    (resumes : x.Resumes tasks later ran after) (weight : Task → Nat) :
    after.load weight + (tasks.map weight).sum =
      x.load weight + (later.map weight).sum := by
  obtain ⟨others, before, now⟩ := resumes.goroutines
  simp only [Strand.load, before, now, Multiset.map_cons, Multiset.sum_cons]
  omega

theorem Strand.load_spawn (x : Strand) (tasks : List Task) (weight : Task → Nat) :
    Strand.load { x with threads := tasks ::ₘ x.threads } weight =
      (tasks.map weight).sum + x.load weight := by
  have goroutines : Strand.goroutines { x with threads := tasks ::ₘ x.threads } =
      tasks ::ₘ x.goroutines := Multiset.cons_swap ..
  rw [Strand.load, goroutines, Multiset.map_cons, Multiset.sum_cons]
  rfl

variable {task : Task}

theorem Strand.le_load {x : Strand} {tasks : List Task}
    (goroutine : tasks ∈ x.goroutines) (member : task ∈ tasks) (weight : Task → Nat) :
    weight task ≤ x.load weight :=
  (List.single_le_sum (by simp) _ (List.mem_map_of_mem member)).trans
    (Multiset.single_le_sum (by simp) _
      (Multiset.mem_map_of_mem (fun tasks => (tasks.map weight).sum) goroutine))

/-- What running one task does to the sending half of a stream. -/
structure Strand.Sends (x : Strand) (task : Task) (ran : Strand) (more : List Task)
    (out : List Frame) : Prop where
  accepted : ran.view.accepted = x.view.accepted ++ dataOf out
  writers : (more.map Task.writing).sum + x.view.stream.smu.toNat =
    task.writing + ran.view.stream.smu.toNat
  locked : ran.view.stream.smu = true →
    ran.view.stream.sdone = false ∧ ran.view.stream.serr = none
  done : x.view.stream.sdone = true → ran.view.stream.sdone = true
  writes : ∀ next ∈ more, next.Writes (ran.view.stream.sdone = true)
  one : out = [] ∨ ∃ frame, out = [frame] ∧
    (frame.type = .fEnd → x.view.stream.sdone = true) ∧
      (frame.type = .fData → x.view.stream.sdone = false)

theorem GoStream.writeNext_sends {st : GoStream} {p : Bytes}
    (sends : st.writeNext p = .sends) :
    p ≠ [] ∧ st.window ≠ 0 ∧ st.serr = none ∧ st.sdone = false := by
  unfold GoStream.writeNext at sends
  split_ifs at sends with empty waits fails
  rw [not_or, not_not, Bool.not_eq_true] at fails
  refine ⟨empty, ?_, fails⟩
  intro zero
  exact waits ⟨zero, fails⟩

theorem Strand.Runs.sends {id : UInt32} {x ran : Strand} {task : Task}
    {more : List Task} {out : List Frame} (runs : x.Runs id task ran more out)
    (writes : task.Writes (x.view.stream.sdone = true))
    (writing : 0 < task.writing → x.view.stream.smu = true)
    (locked : x.view.stream.smu = true →
      x.view.stream.sdone = false ∧ x.view.stream.serr = none) :
    x.Sends task ran more out := by
  cases runs with
  | writeFrame ofStream connected =>
    obtain ⟨noData, ends⟩ := writes
    constructor <;> simp_all [Task.writing, dataOf]
  | writeFailed disconnected | acceptSend => constructor <;> simp_all [Task.writing]
  | openFrame present connected =>
    constructor <;> simp_all [Task.writing, dataOf, Strand.view]
  | openFailed disconnected => constructor <;> simp_all [Task.writing, Task.Writes]
  | removeStream | closeTransport => constructor <;> simp_all [Task.writing, Strand.view]
  | onStream present ran =>
    cases GoStream.exec_cases ran with
    | writeSends free sends =>
      obtain ⟨-, -, working, notYet⟩ := GoStream.writeNext_sends sends
      constructor <;> simp_all [Task.writing, Task.Writes, Strand.view]
    | writingSends connected sends =>
      obtain ⟨-, -, working, notYet⟩ := GoStream.writeNext_sends sends
      constructor <;> simp_all [Task.writing, Task.Writes, Strand.view, dataOf]
    | _ => constructor <;> simp_all [Task.writing, Task.Writes, Strand.view, dataOf]

theorem Task.Writes.mono {done done' : Prop} (writes : task.Writes done)
    (stillDone : done → done') : task.Writes done' := by
  cases task with
  | writeFrame type id payload => exact ⟨writes.1, fun isEnd => stillDone (writes.2 isEnd)⟩
  | _ => trivial

section SendHalf

variable {x after : Strand} {sent out : List Frame}

/-- A task of one goroutine runs. -/
theorem SendHalf.run {id : UInt32} {task : Task} {rest more : List Task} {ran : Strand}
    (send : SendHalf x sent) (runs : x.Runs id task ran more out)
    (resumes : x.Resumes (task :: rest) (more ++ rest) ran after) :
    SendHalf after (sent ++ out) := by
  obtain ⟨others, before, now⟩ := resumes.goroutines
  have here : task :: rest ∈ x.goroutines := by simp [before]
  have sends := runs.sends (send.writes _ here task (by simp)) (by
    intro writing
    have least := Strand.le_load here (List.mem_cons_self) Task.writing
    rw [send.writers] at least
    by_contra free
    simp only [Bool.not_eq_true] at free
    rw [free, Bool.toNat_false] at least
    omega) send.locked
  have view : after.view = ran.view := by
    rw [Strand.view, Strand.view, resumes.handle, resumes.limits]
  constructor
  case accepted => rw [view, sends.accepted, dataOf_append, send.accepted]
  case writers =>
    have loads := resumes.load Task.writing
    have := sends.writers
    have := send.writers
    simp only [List.map_cons, List.map_append, List.sum_cons, List.sum_append] at loads
    rw [view]
    omega
  case locked => rw [view]; exact sends.locked
  case writes =>
    rw [view]
    intro tasks member next inTasks
    rcases Multiset.mem_cons.mp (now ▸ member) with rfl | old
    · rcases List.mem_append.mp inTasks with inMore | inRest
      · exact sends.writes next inMore
      · exact (send.writes _ here next (by simp [inRest])).mono sends.done
    · exact (send.writes tasks (by simp [before, old]) next inTasks).mono sends.done
  case ended =>
    rw [view]
    rintro ⟨frame, member, isEnd⟩
    rcases List.mem_append.mp member with old | new
    · exact sends.done (send.ended ⟨frame, old, isEnd⟩)
    · rcases sends.one with rfl | ⟨_, rfl, ends, -⟩
      · cases new
      · rw [List.mem_singleton] at new
        exact sends.done (ends (new ▸ isEnd))
  case order =>
    rcases sends.one with rfl | ⟨frame, rfl, -, notDone⟩
    · simpa using send.order
    · refine allowed_concat.mpr ⟨send.order, fun isData ended => ?_⟩
      simp [send.ended ended] at notDone
      exact notDone isData

/-- Nothing that a goroutine starts with is a DATA write. -/
theorem SendHalf.spawn (send : SendHalf x sent) (tasks : List Task)
    (idle : (tasks.map Task.writing).sum = 0)
    (writes : ∀ task ∈ tasks, task.Writes (x.view.stream.sdone = true)) :
    SendHalf { x with threads := tasks ::ₘ x.threads } sent :=
  { send with
    writers := by
      rw [Strand.load_spawn, idle, Nat.zero_add]
      exact send.writers
    writes := by
      intro other member
      rw [Strand.goroutines, Multiset.cons_swap] at member
      rcases Multiset.mem_cons.mp member with rfl | old
      · exact writes
      · exact send.writes other old }

theorem SendHalf.remap {mapped : Bool} (send : SendHalf x sent) :
    SendHalf { x with mapped } sent :=
  ⟨send.accepted, send.writers, send.locked, send.writes, send.ended, send.order⟩

/-- The sending half is left alone, and the goroutines go on with work that has
nothing to do with it. -/
theorem SendHalf.frame {tasks later : List Task} {ran : Strand} (send : SendHalf x sent)
    (resumes : x.Resumes tasks later ran after) (view : after.view = x.view)
    (idle : (later.map Task.writing).sum = (tasks.map Task.writing).sum)
    (writes : ∀ task ∈ later, task ∈ tasks ∨ task.Writes (x.view.stream.sdone = true)) :
    SendHalf after sent := by
  obtain ⟨others, before, now⟩ := resumes.goroutines
  constructor
  case accepted => rw [view, send.accepted]
  case writers =>
    have loads := resumes.load Task.writing
    have := send.writers
    rw [view]
    omega
  case locked => rw [view]; exact send.locked
  case writes =>
    rw [view]
    intro other member task inTasks
    rcases Multiset.mem_cons.mp (now ▸ member) with rfl | old
    · rcases writes task inTasks with inOld | new
      · exact send.writes tasks (by simp [before]) task inOld
      · exact new
    · exact send.writes other (by simp [before, old]) task inTasks
  case ended => rw [view]; exact send.ended
  case order => exact send.order

/-- A change of the stream object that leaves its sending half alone. -/
theorem SendHalf.setHandle {before handle : Handle} (send : SendHalf x sent)
    (present : x.view = before) (accepted : handle.accepted = before.accepted)
    (smu : handle.stream.smu = before.stream.smu)
    (sdone : handle.stream.sdone = before.stream.sdone)
    (serr : handle.stream.serr = before.stream.serr) :
    SendHalf { x with handle := some handle } sent := by
  subst present
  exact
    { accepted := send.accepted.trans accepted.symm
      writers := send.writers.trans (congrArg Bool.toNat smu.symm)
      locked := fun locked => by
        have free := send.locked (smu ▸ locked)
        exact ⟨sdone.trans free.1, serr.trans free.2⟩
      writes := fun tasks member task inTasks =>
        (send.writes tasks member task inTasks).mono (sdone.trans ·)
      ended := fun ended => sdone.trans (send.ended ended)
      order := send.order }

end SendHalf

section RecvHalf

variable {x after : Strand} {received : List Frame}

/-- What running one task does to the receiving half of a stream, other than the
arrivals. -/
structure Strand.Quiet (x ran : Strand) (more : List Task) : Prop where
  returned : ran.view.returned = x.view.returned
  rbuf : ran.view.stream.rbuf = x.view.stream.rbuf
  reof : ran.view.stream.reof = x.view.stream.reof
  rerr : ran.view.stream.rerr = none → x.view.stream.rerr = none
  unacked : ran.view.stream.unacked = x.view.stream.unacked
  mapped : ran.mapped = true → x.mapped = true
  arriving : more.flatMap Task.arriving = []
  ends : ∀ next ∈ more, ¬ next.Ends

theorem Strand.Runs.quiet {id : UInt32} {ran : Strand}
    {more : List Task} {out : List Frame} (runs : x.Runs id task ran more out)
    (silent : ¬ task.Arrives) : x.Quiet ran more := by
  cases runs with
  | openFrame present connected => constructor <;> simp [Strand.view, present]
  | openFailed disconnected => constructor <;> simp [Task.arriving, Task.Ends]
  | onStream present ran =>
    cases GoStream.exec_cases ran with
    | onData | onDataDropped | onEnd => exact absurd trivial silent
    | _ => constructor <;> simp_all [Strand.view, Task.arriving, Task.Ends]
  | _ => constructor <;> simp [Strand.view]

theorem Task.arriving_of_not_arrives (silent : ¬ task.Arrives) :
    task.arriving = [] := by
  cases task with
  | onStream r op =>
    cases op with
    | onData data => exact absurd trivial silent
    | _ => rfl
  | _ => rfl

theorem Task.Ends.arrives (ends : task.Ends) : task.Arrives := by
  cases task with
  | onStream r op =>
    cases op with
    | onEnd => trivial
    | _ => exact ends.elim
  | _ => exact ends.elim

/-- A goroutine goes on with work that brings nothing to the stream, and the
receiving half stays as it was. -/
theorem RecvHalf.frame {tasks later : List Task} {ran : Strand}
    (recv : RecvHalf x received) (resumes : x.Resumes tasks later ran after)
    (returned : after.view.returned = x.view.returned)
    (rbuf : after.view.stream.rbuf = x.view.stream.rbuf)
    (reof : after.view.stream.reof = x.view.stream.reof)
    (rerr : after.view.stream.rerr = none → x.view.stream.rerr = none)
    (mapped : after.mapped = true → x.mapped = true)
    (arriving : later.flatMap Task.arriving = tasks.flatMap Task.arriving)
    (ends : ∀ task ∈ later, task.Ends → ∃ task ∈ tasks, task.Ends) :
    RecvHalf after received := by
  have sameArriving : after.arriving = x.arriving := by
    rcases resumes.loop with ⟨same, -⟩ | ⟨was, now⟩
    · rw [Strand.arriving, same, Strand.arriving]
    · rw [Strand.arriving, now, Strand.arriving, was, arriving]
  have sameEnds : (∃ task ∈ after.loop, task.Ends) → ∃ task ∈ x.loop, task.Ends := by
    rintro ⟨task, member, isEnd⟩
    rcases resumes.loop with ⟨same, -⟩ | ⟨was, now⟩
    · exact ⟨task, same ▸ member, isEnd⟩
    · exact was ▸ ends task (now ▸ member) isEnd
  constructor
  case returned => rw [returned, rbuf]; exact recv.returned
  case coming =>
    rw [returned, rbuf, sameArriving]
    exact fun working => recv.coming (rerr working)
  case whole =>
    rw [returned, rbuf, reof, sameArriving]
    exact fun working complete =>
      recv.whole (rerr working) (complete.imp mapped (Or.imp id sameEnds))
  case ended =>
    rw [reof]
    exact fun ended => recv.ended (ended.imp id sameEnds)
  case notYet =>
    rw [sameArriving]
    exact recv.notYet

/-- What the arrivals leave as it was. -/
structure Strand.SameBut (x after : Strand) : Prop where
  returned : after.view.returned = x.view.returned
  rerr : after.view.stream.rerr = x.view.stream.rerr
  mapped : after.mapped = x.mapped
  ends : (∃ task ∈ after.loop, task.Ends) → ∃ task ∈ x.loop, task.Ends

/-- DATA joins the read buffer. -/
theorem RecvHalf.onData (recv : RecvHalf x received) (data : Bytes)
    (same : x.SameBut after) (working : x.view.stream.rerr = none)
    (rbuf : after.view.stream.rbuf = x.view.stream.rbuf ++ data)
    (reof : after.view.stream.reof = x.view.stream.reof)
    (arriving : x.arriving = data ++ after.arriving) : RecvHalf after received := by
  have all : after.view.returned ++ after.view.stream.rbuf ++ after.arriving =
      x.view.returned ++ x.view.stream.rbuf ++ x.arriving := by
    rw [same.returned, rbuf, arriving]
    simp
  have coming := recv.coming working
  constructor
  case returned => exact (List.prefix_append ..).trans (all ▸ coming)
  case coming => exact fun _ => all ▸ coming
  case whole =>
    rw [all, same.mapped, reof]
    exact fun _ complete => recv.whole working (complete.imp id (Or.imp id same.ends))
  case ended =>
    rw [reof]
    exact fun ended => recv.ended (ended.imp id same.ends)
  case notYet => exact fun some => recv.notYet (by simp [arriving, some])

/-- DATA for a stream that reads no more is dropped. -/
theorem RecvHalf.onDataDropped (recv : RecvHalf x received) (data : Bytes)
    (same : x.SameBut after) (ended : x.view.stream.rerr ≠ none ∨ x.view.stream.reof = true)
    (rbuf : after.view.stream.rbuf = x.view.stream.rbuf)
    (reof : after.view.stream.reof = x.view.stream.reof)
    (arriving : x.arriving = data ++ after.arriving) : RecvHalf after received := by
  -- nothing but an empty payload can still arrive after END
  have nothing : x.view.stream.rerr = none → after.arriving = x.arriving := by
    intro working
    have ended := recv.ended (Or.inl (ended.resolve_left (not_not.mpr working)))
    have none : x.arriving = [] := by
      by_contra some
      exact recv.notYet some ended
    rw [none] at arriving ⊢
    exact (List.append_eq_nil_iff.mp arriving.symm).2
  constructor
  case returned => rw [same.returned, rbuf]; exact recv.returned
  case coming =>
    rw [same.returned, rbuf, same.rerr]
    intro working
    rw [nothing working]
    exact recv.coming working
  case whole =>
    rw [same.returned, rbuf, same.rerr, same.mapped, reof]
    intro working complete
    rw [nothing working]
    exact recv.whole working (complete.imp id (Or.imp id same.ends))
  case ended =>
    rw [reof]
    exact fun ended => recv.ended (ended.imp id same.ends)
  case notYet => exact fun some => recv.notYet (by simp [arriving, some])

/-- END is noted. -/
theorem RecvHalf.onEnd (recv : RecvHalf x received) (same : x.SameBut after)
    (ending : ∃ task ∈ x.loop, task.Ends)
    (rbuf : after.view.stream.rbuf = x.view.stream.rbuf)
    (arriving : after.arriving = x.arriving) : RecvHalf after received := by
  constructor
  case returned => rw [same.returned, rbuf]; exact recv.returned
  case coming =>
    rw [same.returned, rbuf, same.rerr, arriving]
    exact recv.coming
  case whole =>
    rw [same.returned, rbuf, same.rerr, arriving]
    exact fun working _ => recv.whole working (Or.inr (Or.inr ending))
  case ended => exact fun _ => recv.ended (Or.inr ending)
  case notYet =>
    rw [arriving]
    exact recv.notYet

/-- A task of one goroutine runs; only the read loop brings DATA and END. -/
theorem RecvHalf.run {id : UInt32} {task : Task} {rest more : List Task} {ran : Strand}
    {out : List Frame} (recv : RecvHalf x received)
    (arrivals : ∀ tasks ∈ x.threads, ∀ task ∈ tasks, ¬ task.Arrives)
    (runs : x.Runs id task ran more out)
    (resumes : x.Resumes (task :: rest) (more ++ rest) ran after) :
    RecvHalf after received := by
  have view : after.view = ran.view := by
    rw [Strand.view, Strand.view, resumes.handle, resumes.limits]
  by_cases arrives : task.Arrives
  · obtain ⟨was, now⟩ : x.loop = task :: rest ∧ after.loop = more ++ rest := by
      rcases resumes.loop with ⟨-, thread⟩ | loop
      · exact absurd arrives (arrivals _ thread task (by simp))
      · exact loop
    cases runs with
    | onStream present ran =>
      next op handle effect =>
      have before : x.view = handle := by simp [Strand.view, present]
      have ends : after.loop = rest →
          (∃ next ∈ after.loop, next.Ends) → ∃ next ∈ x.loop, next.Ends := by
        rintro loop ⟨next, member, isEnd⟩
        exact ⟨next, by rw [was]; simp [← loop, member], isEnd⟩
      cases GoStream.exec_cases ran with
      | @onData data working notYet =>
        have loop : after.loop = rest := by simpa using now
        refine recv.onData data ⟨?_, ?_, resumes.mapped, ends loop⟩ (before ▸ working)
          ?_ ?_ ?_
        · rw [view, before]; rfl
        · rw [view, before]; rfl
        · rw [view, before]; rfl
        · rw [view, before]; rfl
        · simp [Strand.arriving, was, loop, Task.arriving]
      | @onDataDropped data ended =>
        have loop : after.loop = rest := by simpa using now
        refine recv.onDataDropped data ⟨?_, ?_, resumes.mapped, ends loop⟩
          (before ▸ ended) ?_ ?_ ?_
        · rw [view, before]; rfl
        · rw [view, before]; rfl
        · rw [view, before]; rfl
        · rw [view, before]; rfl
        · simp [Strand.arriving, was, loop, Task.arriving]
      | onEnd =>
        have loop : after.loop = rest := by simpa using now
        have ending : ∃ next ∈ x.loop, next.Ends :=
          ⟨.onStream { id } .onEnd, by simp [was], trivial⟩
        refine recv.onEnd ⟨?_, ?_, resumes.mapped, ends loop⟩ ending ?_ ?_
        · rw [view, before]; rfl
        · rw [view, before]; rfl
        · rw [view, before]; rfl
        · simp [Strand.arriving, was, loop, Task.arriving]
      | _ => exact arrives.elim
    | _ => exact arrives.elim
  · have quiet := runs.quiet arrives
    apply recv.frame resumes
    · rw [view, quiet.returned]
    · rw [view, quiet.rbuf]
    · rw [view, quiet.reof]
    · rw [view]; exact quiet.rerr
    · rw [resumes.mapped]; exact quiet.mapped
    · simp [quiet.arriving, Task.arriving_of_not_arrives arrives]
    · intro next member isEnd
      rcases List.mem_append.mp member with inMore | inRest
      · exact absurd isEnd (quiet.ends next inMore)
      · exact ⟨next, by simp [inRest], isEnd⟩

/-- A change of the stream object that moves bytes from the buffer to the
reader. -/
theorem RecvHalf.setHandle {before handle : Handle} (recv : RecvHalf x received)
    (present : x.view = before)
    (returned : handle.returned ++ handle.stream.rbuf =
      before.returned ++ before.stream.rbuf)
    (reof : handle.stream.reof = before.stream.reof)
    (rerr : handle.stream.rerr = before.stream.rerr) :
    RecvHalf { x with handle := some handle } received := by
  subst present
  constructor
  case returned => exact returned.symm ▸ recv.returned
  case coming =>
    intro working
    have coming := recv.coming (rerr ▸ working)
    rw [← returned] at coming
    exact coming
  case whole =>
    intro working complete
    have whole := recv.whole (rerr ▸ working) (complete.imp id (Or.imp (reof ▸ ·) id))
    rw [← returned] at whole
    exact whole
  case ended => exact fun ended => recv.ended (ended.imp (reof ▸ ·) id)
  case notYet => exact recv.notYet

theorem RecvHalf.spawn {tasks : List Task} (recv : RecvHalf x received) :
    RecvHalf { x with threads := tasks ::ₘ x.threads } received :=
  ⟨recv.returned, recv.coming, recv.whole, recv.ended, recv.notYet⟩

/-- A stream that nothing has arrived for. -/
theorem RecvHalf.fresh (returned : after.view.returned = [])
    (rbuf : after.view.stream.rbuf = []) (reof : after.view.stream.reof = false)
    (idle : after.arriving = []) (noEnd : ∀ task ∈ after.loop, ¬ task.Ends)
    (none : dataOf received = []) : RecvHalf after received := by
  constructor <;> simp [returned, rbuf, idle, none, reof]
  exact fun task member isEnd => absurd isEnd (noEnd task member)

theorem Ended.append {history : List Frame} (ended : Ended history)
    (later : List Frame) : Ended (history ++ later) :=
  ended.mono (List.prefix_append ..)

/-- The read loop sets to work for a frame without data. -/
theorem RecvHalf.hear {tasks : List Task} {frame : Frame} (recv : RecvHalf x received)
    (idle : x.loop = []) (noData : dataOf [frame] = [])
    (silent : tasks.flatMap Task.arriving = [])
    (ends : (∃ task ∈ tasks, task.Ends) → frame.type = .fEnd ∧ x.mapped = true) :
    RecvHalf { x with loop := tasks } (received ++ [frame]) := by
  have same : dataOf (received ++ [frame]) = dataOf received := by
    rw [dataOf_append, noData, List.append_nil]
  have none : x.arriving = [] := by simp [Strand.arriving, idle]
  have noneYet : Strand.arriving { x with loop := tasks } = [] := silent
  constructor
  case returned => exact same.symm ▸ recv.returned
  case coming =>
    rw [same, noneYet, ← none]
    exact recv.coming
  case whole =>
    intro working complete
    rw [same, noneYet, ← none]
    exact recv.whole working (by
      rcases complete with mapped | ended | ending
      · exact Or.inl mapped
      · exact Or.inr (Or.inl ended)
      · exact Or.inl (ends ending).2)
  case ended =>
    rintro (ended | ending)
    · exact (recv.ended (Or.inl ended)).append _
    · exact ⟨frame, by simp, (ends ending).1⟩
  case notYet => exact fun some => absurd noneYet some

/-- DATA arrives for a registered stream. -/
theorem RecvHalf.hearData {r : Ref} {frame : Frame} (recv : RecvHalf x received)
    (registered : x.mapped = true) (idle : x.loop = []) (isData : frame.type = .fData)
    (notEnded : ¬ Ended received) :
    RecvHalf { x with loop := [.onStream r (.onData frame.payload)] }
      (received ++ [frame]) := by
  have data : dataOf (received ++ [frame]) = dataOf received ++ frame.payload := by
    simp [dataOf, isData]
  have none : x.arriving = [] := by simp [Strand.arriving, idle]
  have coming : Strand.arriving
      { x with loop := [.onStream r (.onData frame.payload)] } = frame.payload := by
    simp [Strand.arriving, Task.arriving]
  have stillNot : ¬ Ended (received ++ [frame]) := by
    rintro ⟨other, member, isEnd⟩
    rcases List.mem_append.mp member with old | new
    · exact notEnded ⟨other, old, isEnd⟩
    · rw [List.mem_singleton.mp new, isData] at isEnd
      cases isEnd
  have whole : x.view.stream.rerr = Option.none →
      x.view.returned ++ x.view.stream.rbuf ++ frame.payload =
        dataOf received ++ frame.payload := by
    intro working
    have before := recv.whole working (Or.inl registered)
    rw [none, List.append_nil] at before
    rw [before]
  constructor
  case returned => exact data.symm ▸ recv.returned.trans (List.prefix_append ..)
  case coming =>
    rw [data, coming]
    exact fun working => whole working ▸ List.prefix_refl _
  case whole =>
    rw [data, coming]
    exact fun working _ => whole working
  case ended =>
    rintro (ended | ⟨task, member, isEnd⟩)
    · exact (recv.ended (Or.inl ended)).append _
    · rw [List.mem_singleton.mp member] at isEnd
      exact isEnd.elim
  case notYet => exact fun _ => stillNot

/-- A frame arrives for a stream that is no longer registered. -/
theorem RecvHalf.drop {frame : Frame} (recv : RecvHalf x received) (idle : x.loop = [])
    (unmapped : x.mapped = false)
    (noData : Ended received → frame.type ≠ .fData) :
    RecvHalf x (received ++ [frame]) := by
  have none : x.arriving = [] := by simp [Strand.arriving, idle]
  have grows : dataOf received <+: dataOf (received ++ [frame]) := by
    rw [dataOf_append]
    exact List.prefix_append ..
  constructor
  case returned => exact recv.returned.trans grows
  case coming => exact fun working => (recv.coming working).trans grows
  case whole =>
    rintro working (mapped | eof | ⟨task, member, -⟩)
    · simp [unmapped] at mapped
    · have ended := recv.ended (Or.inl eof)
      rw [recv.whole working (Or.inr (Or.inl eof)), dataOf_append]
      simp [dataOf, noData ended]
    · simp [idle] at member
  case ended => exact fun ended => (recv.ended ended).append _
  case notYet => exact fun some => absurd none some

end RecvHalf

section Contract

variable {Fits : Nat → Handle → Nat → Prop} {own : Prop} {id : UInt32}
variable {x after : Strand} {sent received out : List Frame}

/-- The other end sends no DATA after END. -/
theorem Rely.endsLast (rely : Rely (Delivery (¬ own)) sent received) :
    Allowed EndsLast received := by
  obtain ⟨peer, peerSent, peerReceived, theirs, -, toUs⟩ := rely
  exact theirs.send.order.truncate toUs

/-- Work that the application starts is no part of either half. -/
theorem Call.quiet {tasks : List Task} (called : Call id tasks) (done : Prop) :
    (tasks.map Task.writing).sum = 0 ∧ ∀ task ∈ tasks, task.Writes done := by
  cases called <;> simp [Task.writing, Task.Writes]

theorem closing_idle (x : Strand) (id : UInt32) (err : StreamErr) (tasks : List Task) :
    ((x.closing id err ++ tasks).map Task.writing).sum = (tasks.map Task.writing).sum ∧
      (x.closing id err ++ tasks).flatMap Task.arriving = tasks.flatMap Task.arriving := by
  unfold Strand.closing
  split <;> simp [Task.writing, Task.arriving]

theorem closing_writes {err : StreamErr} {done : Prop}
    (member : task ∈ x.closing id err) : task.Writes done := by
  unfold Strand.closing at member
  split at member <;> simp at member
  · rcases member with rfl | rfl <;> trivial
  · subst member
    trivial

theorem halves_act (delivery : Delivery own x sent received)
    (step : x.Step Fits own id out after) :
    SendHalf after (sent ++ out) ∧ RecvHalf after received := by
  obtain ⟨life, send, recv⟩ := delivery
  cases step with
  | idle => simpa using ⟨send, recv⟩
  | @run task rest more put ran _ goroutine runs =>
    have lives := runs.lives
    have resumes : x.Resumes (task :: rest) (more ++ rest) ran _ :=
      goroutine.resumes lives.loop lives.threads
    exact ⟨send.run runs resumes, recv.run life.arrivals runs resumes⟩
  | close notYet goroutine =>
    next err tasks put =>
    have resumes : x.Resumes tasks (x.closing id err ++ tasks)
        { x with closed := true, mapped := false } _ := goroutine.resumes rfl rfl
    have view : Strand.view
        (put (x.closing id err ++ tasks) { x with closed := true, mapped := false }) =
          x.view := by
      rw [Strand.view, Strand.view, resumes.handle, resumes.limits]
    obtain ⟨idle, silent⟩ := closing_idle x id err tasks
    rw [List.append_nil]
    constructor
    · refine send.frame resumes view idle fun task member => ?_
      exact (List.mem_append.mp member).symm.imp_right closing_writes
    · refine recv.frame resumes (by rw [view]) (by rw [view]) (by rw [view])
        (by rw [view]; exact fun working => working) (by simp [resumes.mapped]) silent ?_
      intro task member ends
      rcases List.mem_append.mp member with inClosing | inRest
      · exact absurd ends.arrives (closing_quiet inClosing).2.2
      · exact ⟨task, inRest, ends⟩
  | startOther =>
    rw [List.append_nil]
    exact ⟨send.spawn [] rfl (by simp), recv.spawn⟩
  | call present held called =>
    rw [List.append_nil]
    obtain ⟨idle, writes⟩ := called.quiet (x.view.stream.sdone = true)
    exact ⟨send.spawn _ idle writes, recv.spawn⟩
  | create openMeta isOwn absent =>
    have view : x.view = { stream := newStream x.limits.initialWindow [] } := by
      simp [Strand.view, absent]
    obtain ⟨-, allClose, -, deaf⟩ := life.absent absent
    rw [List.append_nil]
    constructor
    · have created : SendHalf
          { x with
            handle := some { stream := newStream x.limits.initialWindow openMeta } }
          sent := send.setHandle view rfl rfl rfl rfl
      exact (created.spawn [.openFrame { id } openMeta] rfl
        (by simp [Task.Writes])).remap
    · have quiet := fun task member => allClose x.loop (by simp [Strand.goroutines])
        task member
      refine .fresh rfl rfl rfl ?_ ?_ (by simp [deaf])
      · refine List.flatMap_eq_nil_iff.mpr fun task member => ?_
        rw [quiet task member]
        rfl
      · intro task member
        rw [quiet task member]
        exact not_false
  | @accept handle isRemote present =>
    have view : x.view = handle := by rw [Strand.view, present]; rfl
    rw [List.append_nil]
    exact ⟨send.setHandle view rfl rfl rfl rfl, recv.setHandle view rfl rfl rfl⟩
  | @read n handle step present held fits ran =>
    have view : x.view = handle := by rw [Strand.view, present]; rfl
    have sent' : SendHalf
        { x with
          handle :=
            some
              { handle with
                stream := step.stream
                returned := handle.returned ++ step.result.data } } sent := by
      refine send.setHandle view rfl ?_ ?_ ?_ <;> cases GoStream.read_cases ran <;> rfl
    have received' : RecvHalf
        { x with
          handle :=
            some
              { handle with
                stream := step.stream
                returned := handle.returned ++ step.result.data } } received := by
      refine recv.setHandle view ?_ ?_ ?_ <;> cases GoStream.read_cases ran <;>
        simp [ReadResult.data]
    rw [List.append_nil]
    unfold Strand.afterRead
    split
    · exact ⟨sent'.spawn _ rfl (by simp [Task.Writes]), received'.spawn⟩
    · exact ⟨sent', received'⟩

/-- The read loop sets to work on the stream. -/
theorem SendHalf.startLoop (send : SendHalf x sent) (tasks : List Task)
    (idle : x.loop = []) (silent : (tasks.map Task.writing).sum = 0)
    (writes : ∀ task ∈ tasks, task.Writes (x.view.stream.sdone = true)) :
    SendHalf { x with loop := tasks } sent :=
  { send with
    writers := by
      have before := send.writers
      rw [Strand.load, Strand.goroutines, Multiset.map_cons, Multiset.sum_cons,
        idle] at before
      rw [Strand.load, Strand.goroutines, Multiset.map_cons, Multiset.sum_cons, silent]
      exact before
    writes := by
      intro other member
      rcases Multiset.mem_cons.mp member with rfl | old
      · exact writes
      · exact send.writes other (by simp [Strand.goroutines, old]) }

theorem halves_receive {frame : Frame} (delivery : Delivery own x sent received)
    (order : Allowed EndsLast (received ++ [frame])) (idle : x.loop = [])
    (arrived : x.Receive own id frame after) :
    SendHalf after sent ∧ RecvHalf after (received ++ [frame]) := by
  obtain ⟨life, send, recv⟩ := delivery
  cases arrived with
  | opened isOpen isRemote absent =>
    have view : x.view = { stream := newStream x.limits.initialWindow [] } := by
      simp [Strand.view, absent]
    obtain ⟨-, -, -, deaf⟩ := life.absent absent
    constructor
    · have created : SendHalf
          { x with
            handle := some { stream := newStream x.limits.initialWindow frame.payload } }
          sent := send.setHandle view rfl rfl rfl rfl
      exact (created.startLoop [.acceptSend { id }] idle rfl
        (by simp [Task.Writes])).remap
    · exact .fresh rfl rfl rfl rfl (by simp [Task.Ends]) (by simp [deaf, dataOf, isOpen])
  | forward registered isOp =>
    have kind : frame.type = .fData ∨ frame.type = .fEnd ∨ frame.type = .fSignal ∨
        frame.type = .fCredit := by
      unfold Frame.op at isOp
      split at isOp <;> simp_all
    refine ⟨send.startLoop _ idle ?_ ?_, ?_⟩
    · rcases kind with kind | kind | kind | kind <;>
        simp only [Frame.op, kind, Option.some.injEq] at isOp <;> subst isOp <;> rfl
    · simp [Task.Writes]
    · rcases kind with kind | kind | kind | kind <;>
        simp only [Frame.op, kind, Option.some.injEq] at isOp <;> subst isOp
      · exact recv.hearData registered idle kind
          (order received frame (List.prefix_refl _) kind)
      · exact recv.hear idle (by simp [dataOf, kind]) rfl
          fun _ => ⟨kind, registered⟩
      · exact recv.hear idle (by simp [dataOf, kind]) rfl (by simp [Task.Ends])
      · exact recv.hear idle (by simp [dataOf, kind]) rfl (by simp [Task.Ends])
  | reset isReset registered =>
    exact ⟨send.startLoop _ idle rfl (by simp [Task.Writes]),
      recv.hear idle (by simp [dataOf, isReset]) rfl (by simp [Task.Ends])⟩
  | dropped notOpen unmapped =>
    refine ⟨send, recv.drop idle unmapped fun ended isData => ?_⟩
    exact order received frame (List.prefix_refl _) isData ended

theorem delivery_act (delivery : Delivery own x sent received)
    (step : x.Step Fits own id out after) : Delivery own after (sent ++ out) received :=
  have halves := halves_act delivery step
  ⟨lifecycle_act delivery.life step, halves.1, halves.2⟩

theorem delivery_receive {frame : Frame} (delivery : Delivery own x sent received)
    (hears : Hears own sent (received ++ [frame]))
    (order : Allowed EndsLast (received ++ [frame])) (idle : x.loop = [])
    (arrived : x.Receive own id frame after) :
    Delivery own after sent (received ++ [frame]) :=
  have halves := halves_receive delivery order idle arrived
  ⟨lifecycle_receive delivery.life hears arrived, halves.1, halves.2⟩

theorem Rely.delivery_hears (rely : Rely (Delivery (¬ own)) sent received) :
    Hears own sent received :=
  Rely.hears (Rely.mono rely Delivery.life)

theorem delivery_contract : Strand.Contract Fits own id (Delivery own) (Delivery (¬ own)) where
  act delivery _ step := delivery_act delivery step
  receive delivery rely _ idle arrived :=
    delivery_receive delivery (Rely.delivery_hears rely) (Rely.endsLast rely) idle arrived

end Contract

/-- Before anything has happened. -/
theorem delivery_start (own : Prop) (cfg : Config) (id : UInt32) :
    Delivery own ((newEndpoint cfg).strand id) [] [] where
  life := by
    constructor <;>
      simp [newEndpoint, newSession, Endpoint.strand, Strand.goroutines, allowed_nil]
    exact .nil
  send := by
    constructor <;>
      simp [newEndpoint, newSession, newStream, Endpoint.strand, Strand.goroutines,
        Strand.view, Strand.load, Ended, allowed_nil]
  recv := by
    constructor <;>
      simp [newEndpoint, newSession, newStream, Endpoint.strand, Strand.view,
        Strand.arriving]

/-- The bytes that the `Read`s on a stream have returned. -/
def Endpoint.returned (e : Endpoint) (r : Ref) : Bytes :=
  ((e.heap r).map Handle.returned).getD []

/-- The bytes that the `Write`s on a stream have accepted. -/
def Endpoint.accepted (e : Endpoint) (r : Ref) : Bytes :=
  ((e.heap r).map Handle.accepted).getD []

/-- The reader `e` of a stream gets a prefix of what its writer `peer` accepted,
and its end only after the whole. -/
structure Delivers (e peer : Endpoint) (r : Ref) : Prop where
  returned : e.returned r <+: peer.accepted r
  eof : ∀ {handle n step}, e.heap r = some handle →
    handle.stream.read e.session.creditThreshold n = some step → step.result = .eof →
      handle.returned = peer.accepted r ∧
        ∃ writer, peer.heap r = some writer ∧ writer.stream.sdone = true

/-- What the invariants of both ends say of one direction of one stream. -/
theorem Delivery.delivers {own own' : Prop} {e peer : Endpoint} {id : UInt32}
    {sent received sent' received' : List Frame}
    (reader : Delivery own (e.strand id) sent received)
    (writer : Delivery own' (peer.strand id) sent' received')
    (arrived : received <+: sent') : Delivers e peer { id } := by
  have accepted : peer.accepted { id } = dataOf sent' := by
    rw [writer.send.accepted, Strand.view, Endpoint.accepted]
    change _ = ((peer.heap { id }).getD _).accepted
    cases peer.heap { id } <;> rfl
  have view : ∀ {handle}, e.heap { id } = some handle → (e.strand id).view = handle :=
    fun present => by
      change (e.heap { id }).getD _ = _
      rw [present]
      rfl
  constructor
  case returned =>
    rw [accepted, Endpoint.returned]
    cases present : e.heap { id } with
    | none => exact (by simp)
    | some handle =>
      have returned := reader.recv.returned
      rw [view present] at returned
      exact (List.prefix_append ..).trans (returned.trans (dataOf_mono arrived))
  case eof =>
    intro handle n step present ran isEof
    cases GoStream.read_cases ran with
    | failed | grants | keeps => cases isEof
    | eof empty working eof =>
      have at_ := view present
      have ended := reader.recv.ended (Or.inl (at_ ▸ eof))
      have whole := reader.recv.whole (at_ ▸ working) (Or.inr (Or.inl (at_ ▸ eof)))
      have none : (e.strand id).arriving = [] := by
        by_contra some
        exact reader.recv.notYet some ended
      rw [none, at_, empty, List.append_nil, List.append_nil] at whole
      have done := writer.send.ended (ended.mono arrived)
      refine ⟨?_, ?_⟩
      · rw [accepted, whole]
        exact dataOf_eq_of_ended writer.send.order arrived ended
      · change ((peer.heap { id }).getD _).stream.sdone = true at done
        cases found : peer.heap { id } with
        | none => simp [found, newStream] at done
        | some writer => exact ⟨writer, rfl, by simpa [found] using done⟩

theorem Naming.absent {client : Bool} {e : Endpoint} {sent received : List Frame}
    (naming : Naming client e sent received) {r : Ref} (later : r ≠ { id := r.id }) :
    e.heap r = none := by
  rw [← Option.not_isSome_iff_eq_none]
  exact fun present => later (naming.ref_eq present)

theorem Delivers.absent {e peer : Endpoint} {r : Ref} (absent : e.heap r = none) :
    Delivers e peer r where
  returned := by simp [Endpoint.returned, absent]
  eof present := by simp [absent] at present

/-- Every stream of two sessions delivers in both directions, whatever the
interleaving, as long as neither side runs out of ids. -/
theorem reads_deliver {capacity : Option Nat} {leftCfg rightCfg : Config}
    (client : leftCfg.client = true) (server : rightCfg.client = false)
    {state : State Endpoint Endpoint Bytes} {past : Histories Bytes}
    (run : Run goParty goParty capacity (newEndpoint leftCfg) (newEndpoint rightCfg)
      state past)
    (leftFewer : state.left.opened ≤ maxOpened)
    (rightFewer : state.right.opened ≤ maxOpened) (r : Ref) :
    Delivers state.left state.right r ∧ Delivers state.right state.left r := by
  have within := run_within run leftFewer rightFewer
  obtain ⟨⟨leftNaming, left⟩, rightNaming, right⟩ :=
    session_run (fun _ _ => delivery_contract) client server
      (fun id => delivery_start _ leftCfg id) (fun id => delivery_start _ rightCfg id) within
  by_cases first : r = { id := r.id }
  · rw [first]
    exact ⟨(left r.id).delivers (right r.id)
        (about_mono (frames_mono run.leftReceived_le)),
      (right r.id).delivers (left r.id)
        (about_mono (frames_mono run.rightReceived_le))⟩
  · exact ⟨.absent (leftNaming.absent first), .absent (rightNaming.absent first)⟩

/-- A client writes three bytes and half-closes; the server reads them in two
reads. -/
def deliveryScript : List (Turn Act Act) :=
  [.left (.openStream []), .left (.step 0), .toRight, .right .stepLoop, .right .accept,
    .left (.write { id := 1 } [7, 8, 9]), .left (.step 1), .left (.step 1),
    .left (.closeWrite { id := 1 }), .left (.step 2), .left (.step 2),
    .toRight, .right .stepLoop, .right (.read { id := 1 } 2), .toRight, .right .stepLoop,
    .right (.read { id := 1 } 2)]

def deliveryRun : Option (State Endpoint Endpoint Bytes × Histories Bytes) :=
  play goMachine goMachine none
    ({ left := newEndpoint { client := true }, right := newEndpoint { client := false } }, {})
    deliveryScript

theorem reads_deliver_script : ∃ now ∈ deliveryRun,
    now.1.right.returned { id := 1 } = [7, 8, 9] ∧
      Delivers now.1.left now.1.right { id := 1 } ∧
        Delivers now.1.right now.1.left { id := 1 } := by
  have finished : deliveryRun.map (fun now => (now.1.right.returned { id := 1 },
      decide (now.1.left.opened ≤ maxOpened), decide (now.1.right.opened ≤ maxOpened))) =
        some ([7, 8, 9], true, true) := by decide +kernel
  obtain ⟨now, played, result⟩ := Option.map_eq_some_iff.mp finished
  simp only [Prod.mk.injEq, decide_eq_true_eq] at result
  have run : Run goParty goParty none (newEndpoint { client := true })
      (newEndpoint { client := false }) now.1 now.2 := play_run .start played
  exact ⟨now, played, result.1,
    reads_deliver rfl rfl run result.2.1 result.2.2 { id := 1 }⟩

end HelixKit.Stream
