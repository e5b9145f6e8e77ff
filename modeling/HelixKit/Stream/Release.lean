/-
Purpose: What tears a Go stream down, and what a RESET or a teardown has left to do until every
  `Write` on the stream returns.
Trusted boundary: none
-/
import HelixKit.Stream.Delivery

namespace HelixKit.Stream

open HelixKit.Duplex HelixKit.History

/-- Whether a history has a RESET. -/
def WasReset (history : List Frame) : Prop := ∃ frame ∈ history, frame.type = .fReset

theorem WasReset.mono {short long : List Frame} (wasReset : WasReset short)
    (isPrefix : short <+: long) : WasReset long := by
  obtain ⟨frame, member, isReset⟩ := wasReset
  exact ⟨frame, isPrefix.subset member, isReset⟩

theorem wasReset_append {first second : List Frame} :
    WasReset (first ++ second) ↔ WasReset first ∨ WasReset second := by
  simp [WasReset, or_and_right, exists_or]

@[simp] theorem not_wasReset_nil : ¬ WasReset [] := by simp [WasReset]

/-! ### What a goroutine is about to do -/

/-- What the goroutine tears down it tears down for `reason`, or a RESET goes out first. -/
def Explained (reason : Prop) : List Task → Prop
  | [] => True
  | .writeFrame .fReset _ _ :: _ => True
  | .onStream _ (.teardown _) :: _ => reason
  | _ :: rest => Explained reason rest

/-- Nothing that waits stands before the teardown of the stream, but for the send mutex. -/
def tearsSoon : List Task → Bool
  | .writeFrame _ _ _ :: rest => tearsSoon rest
  | .onStream _ .closeWrite :: rest => tearsSoon rest
  | .onStream _ (.teardown _) :: _ => true
  | _ => false

/-- A goroutine that sends RESET tears the stream down after it. -/
def ResetsTear : List Task → Prop
  | [] => True
  | .writeFrame .fReset _ _ :: rest => tearsSoon rest = true ∧ ResetsTear rest
  | _ :: rest => ResetsTear rest

/-- The goroutine is about to fail the stream's writes. -/
def failsSoon : List Task → Bool
  | .onStream _ (.teardownRecv _) :: rest => failsSoon rest
  | .onStream _ (.teardownSend _) :: _ => true
  | _ => false

theorem Explained.mono {reason reason' : Prop} {tasks : List Task}
    (explained : Explained reason tasks) (still : reason → reason') :
    Explained reason' tasks := by
  induction tasks using Explained.induct with
  | case1 => trivial
  | case2 => trivial
  | case3 => exact still explained
  | case4 task rest notReset notTeardown hypothesis =>
    unfold Explained at explained ⊢
    split <;> simp_all

theorem Explained.of_reason {reason : Prop} (holds : reason) (tasks : List Task) :
    Explained reason tasks := by
  induction tasks using Explained.induct with
  | case1 => trivial
  | case2 => trivial
  | case3 => exact holds
  | case4 task rest notReset notTeardown hypothesis =>
    unfold Explained
    split <;> simp_all

/-- What one task of a stream does to a teardown. -/
structure Strand.Undoes (x : Strand) (task : Task) (ran : Strand) (more : List Task)
    (out : List Frame) : Prop where
  reof : x.view.stream.reof = true → ran.view.stream.reof = true
  serr : x.view.stream.serr ≠ none → ran.view.stream.serr ≠ none
  sends : x.transportClosed = false → ∀ id payload, task = .writeFrame .fReset id payload →
    WasReset out
  resets : WasReset out → ∃ id payload, task = .writeFrame .fReset id payload
  once : ran.ClosedOnce → x.ClosedOnce ∨
    (∃ r err, task = .onStream r (.teardown err)) ∧ ∀ rest, failsSoon (more ++ rest) = true
  explained : ∀ {reason : Prop} {rest}, Explained reason rest → Explained reason (more ++ rest)
  resetsTear : ∀ {rest}, ResetsTear rest → ResetsTear (more ++ rest)
  tears : ∀ {rest}, tearsSoon (task :: rest) = true →
    ran.ClosedOnce ∨ tearsSoon (more ++ rest) = true
  fails : ∀ {rest}, failsSoon (task :: rest) = true →
    ran.view.stream.serr ≠ none ∨ failsSoon (more ++ rest) = true

theorem Strand.Runs.undoes {id : UInt32} {x ran : Strand} {task : Task} {more : List Task}
    {out : List Frame} (runs : x.Runs id task ran more out) : x.Undoes task ran more out := by
  cases runs with
  | @writeFrame type payload ofStream connected =>
    constructor <;> cases type <;>
      simp_all [WasReset, tearsSoon, failsSoon]
  | writeFailed disconnected =>
    constructor <;> simp_all [tearsSoon, failsSoon]
  | openFrame present connected =>
    constructor <;>
      simp_all [WasReset, tearsSoon, failsSoon, Strand.view, Strand.ClosedOnce]
  | openFailed disconnected =>
    constructor <;>
      simp_all [WasReset, tearsSoon, failsSoon, Explained, ResetsTear]
  | removeStream | closeTransport =>
    constructor <;> simp_all [tearsSoon, failsSoon, Strand.view, Strand.ClosedOnce]
  | acceptSend => constructor <;> simp_all [tearsSoon, failsSoon]
  | onStream present ran =>
    cases GoStream.exec_cases ran <;> constructor <;>
      simp_all [WasReset, tearsSoon, failsSoon, Explained, ResetsTear, Strand.view,
        Strand.ClosedOnce]

/-! ### The invariant -/

/-- Why a stream may be torn down while its session goes on. -/
def Strand.Reason (x : Strand) (sent received : List Frame) : Prop :=
  x.view.stream.reof = true ∨ WasReset sent ∨ WasReset received

/-- What holds of the teardown of a stream while its session goes on. -/
structure Releasing (x : Strand) (sent received : List Frame) : Prop where
  explained : ∀ tasks ∈ x.goroutines, Explained (x.Reason sent received) tasks
  reason : x.ClosedOnce → x.Reason sent received
  reset : WasReset sent ∨ WasReset received →
    x.ClosedOnce ∨ ∃ tasks ∈ x.goroutines, tearsSoon tasks = true
  failing : x.ClosedOnce → x.view.stream.serr ≠ none ∨
    ∃ tasks ∈ x.goroutines, failsSoon tasks = true

/-- One end of a stream, of which a teardown comes to its end. -/
structure Release (own : Prop) (x : Strand) (sent received : List Frame) : Prop where
  delivery : Delivery own x sent received
  resetsTear : ∀ tasks ∈ x.goroutines, ResetsTear tasks
  alive : x.closed = false → Releasing x sent received

/-- The goroutine of `Close`. -/
def closeTasks (id : UInt32) : List Task :=
  [.onStream { id } .closeWrite, .onStream { id } (.teardown .streamClosed), .removeStream id]

/-- A `Close` starts on the stream only after the END of the other side has come, or after an
earlier teardown. -/
def ClosesAfterEnd (id : UInt32) (x after : Strand) : Prop :=
  after.threads = closeTasks id ::ₘ x.threads → x.view.stream.reof = true ∨ x.ClosedOnce

section Release

variable {own : Prop} {id : UInt32} {x after : Strand} {sent received out : List Frame}

theorem Strand.Reason.mono {sent' received' : List Frame} (reason : x.Reason sent received)
    (reof : x.view.stream.reof = true → after.view.stream.reof = true)
    (sends : sent <+: sent') (receives : received <+: received') :
    after.Reason sent' received' :=
  reason.imp reof (Or.imp (·.mono sends) (·.mono receives))

/-- A task of one goroutine runs. -/
theorem Releasing.run {task : Task} {rest more : List Task} {ran : Strand}
    (releasing : Releasing x sent received) (runs : x.Runs id task ran more out)
    (resumes : x.Resumes (task :: rest) (more ++ rest) ran after)
    (resetsTear : ResetsTear (task :: rest)) (connected : x.transportClosed = false) :
    Releasing after (sent ++ out) received := by
  obtain ⟨others, before, now⟩ := resumes.goroutines
  have undoes := runs.undoes
  have lives := runs.lives
  have here : task :: rest ∈ x.goroutines := by simp [before]
  have view : after.view = ran.view := by
    rw [Strand.view, Strand.view, resumes.handle, resumes.limits]
  have once : ran.ClosedOnce → after.ClosedOnce := fun once => once.of_handle resumes.handle
  have ranOnce : after.ClosedOnce → ran.ClosedOnce := fun once =>
    once.of_handle resumes.handle.symm
  have still : x.Reason sent received → after.Reason (sent ++ out) received := fun reason =>
    reason.mono (by rw [view]; exact undoes.reof) (List.prefix_append ..) (List.prefix_refl _)
  have explained := releasing.explained _ here
  constructor
  case explained =>
    intro tasks member
    rcases Multiset.mem_cons.mp (now ▸ member) with rfl | old
    · refine undoes.explained ?_
      cases task with
      | writeFrame type id payload =>
        cases type with
        | fReset =>
          have reset := undoes.sends connected _ _ rfl
          exact .of_reason (Or.inr (Or.inl (wasReset_append.mpr (Or.inr reset)))) rest
        | _ => exact explained.mono still
      | onStream r op =>
        cases op with
        | teardown err => exact .of_reason (still explained) rest
        | _ => exact explained.mono still
      | _ => exact explained.mono still
    · exact (releasing.explained tasks (by simp [before, old])).mono still
  case reason =>
    intro closedOnce
    rcases undoes.once (ranOnce closedOnce) with old | ⟨⟨r, err, rfl⟩, -⟩
    · exact still (releasing.reason old)
    · exact still explained
  case reset =>
    intro wasReset
    have soon : x.ClosedOnce ∨ ∃ tasks ∈ x.goroutines, tearsSoon tasks = true := by
      rw [wasReset_append] at wasReset
      rcases wasReset with (sends | new) | receives
      · exact releasing.reset (Or.inl sends)
      · obtain ⟨id, payload, rfl⟩ := undoes.resets new
        exact Or.inr ⟨_, here, resetsTear.1⟩
      · exact releasing.reset (Or.inr receives)
    rcases soon with closedOnce | ⟨tasks, member, soon⟩
    · exact Or.inl (once (lives.closedOnce closedOnce))
    · rcases Multiset.mem_cons.mp (before ▸ member) with rfl | other
      · rcases undoes.tears soon with closedOnce | still
        · exact Or.inl (once closedOnce)
        · exact Or.inr ⟨_, by simp [now], still⟩
      · exact Or.inr ⟨tasks, by simp [now, other], soon⟩
  case failing =>
    intro closedOnce
    rcases undoes.once (ranOnce closedOnce) with old | ⟨-, soon⟩
    · rcases releasing.failing old with failed | ⟨tasks, member, soon⟩
      · exact Or.inl (by rw [view]; exact undoes.serr failed)
      · rcases Multiset.mem_cons.mp (before ▸ member) with rfl | other
        · rcases undoes.fails soon with failed | still
          · exact Or.inl (by rw [view]; exact failed)
          · exact Or.inr ⟨_, by simp [now], still⟩
        · exact Or.inr ⟨tasks, by simp [now, other], soon⟩
    · exact Or.inr ⟨_, by simp [now], soon rest⟩

/-- Another goroutine starts. -/
theorem Releasing.spawn {tasks : List Task} (releasing : Releasing x sent received)
    (explained : Explained (x.Reason sent received) tasks) :
    Releasing { x with threads := tasks ::ₘ x.threads } sent received := by
  have goroutines : Strand.goroutines { x with threads := tasks ::ₘ x.threads } =
      tasks ::ₘ x.goroutines := Multiset.cons_swap ..
  constructor
  case explained =>
    rw [goroutines]
    intro other member
    rcases Multiset.mem_cons.mp member with rfl | old
    · exact explained
    · exact releasing.explained other old
  case reason => exact releasing.reason
  case reset =>
    rw [goroutines]
    exact fun wasReset => (releasing.reset wasReset).imp_right fun ⟨other, member, soon⟩ =>
      ⟨other, by simp [member], soon⟩
  case failing =>
    rw [goroutines]
    exact fun closedOnce => (releasing.failing closedOnce).imp_right
      fun ⟨other, member, soon⟩ => ⟨other, by simp [member], soon⟩

/-- A change of the stream object that no teardown depends on. -/
theorem Releasing.setHandle {before handle : Handle} (releasing : Releasing x sent received)
    (present : x.handle = some before)
    (closeOnce : handle.stream.closeOnce = before.stream.closeOnce)
    (reof : handle.stream.reof = before.stream.reof)
    (serr : handle.stream.serr = before.stream.serr) :
    Releasing { x with handle := some handle } sent received := by
  have view : x.view = before := by rw [Strand.view, present]; rfl
  have once : Strand.ClosedOnce { x with handle := some handle } ↔ x.ClosedOnce := by
    simp [Strand.ClosedOnce, present, closeOnce]
  have reason : Strand.Reason { x with handle := some handle } sent received ↔
      x.Reason sent received := by
    rw [Strand.Reason, Strand.Reason, view]
    exact or_congr_left (by rw [← reof]; rfl)
  constructor
  case explained =>
    exact fun tasks member => (releasing.explained tasks member).mono reason.mpr
  case reason => exact fun closedOnce => reason.mpr (releasing.reason (once.mp closedOnce))
  case reset => exact fun wasReset => (releasing.reset wasReset).imp_left once.mpr
  case failing =>
    intro closedOnce
    refine (releasing.failing (once.mp closedOnce)).imp_left ?_
    rw [view, ← serr]
    exact id

/-- A stream that nothing was sent for, and nothing but its OPEN received. -/
theorem Releasing.fresh {initialWindow : Nat} {openMeta : Bytes}
    (handle : after.handle = some { stream := newStream initialWindow openMeta })
    (sends : ¬ WasReset sent) (receives : ¬ WasReset received)
    (explained : ∀ tasks ∈ after.goroutines, Explained (after.Reason sent received) tasks) :
    Releasing after sent received := by
  have notOnce : ¬ after.ClosedOnce := by
    rintro ⟨held, present, once⟩
    rw [handle, Option.some.injEq] at present
    subst present
    cases once
  exact ⟨explained, fun once => absurd once notOnce,
    fun wasReset => absurd wasReset (not_or.mpr ⟨sends, receives⟩),
    fun once => absurd once notOnce⟩

theorem ResetsTear.append_closing {tasks : List Task} (resetsTear : ResetsTear tasks)
    (err : StreamErr) : ResetsTear (x.closing id err ++ tasks) := by
  unfold Strand.closing
  split <;> simpa [ResetsTear] using resetsTear

/-- What a call starts tears down for a reason: `Close` has it from before, and `Reset` sends
RESET first. -/
theorem Call.explained {reason : Prop} {tasks : List Task} (called : Call id tasks)
    (closes : tasks = closeTasks id → reason) : Explained reason tasks := by
  cases called with
  | close => exact closes rfl
  | _ => simp [Explained]

theorem Call.resetsTear {tasks : List Task} (called : Call id tasks) : ResetsTear tasks := by
  cases called with
  | signal payload => simp [ResetsTear]
  | reset reason => exact ⟨rfl, trivial⟩
  | _ => trivial

theorem Release.spawn {tasks : List Task} (release : Release own x sent received)
    (delivery : Delivery own { x with threads := tasks ::ₘ x.threads } sent received)
    (resetsTear : ResetsTear tasks)
    (explained : x.closed = false → Explained (x.Reason sent received) tasks) :
    Release own { x with threads := tasks ::ₘ x.threads } sent received where
  delivery := delivery
  resetsTear := by
    intro other member
    rw [Strand.goroutines, Multiset.cons_swap] at member
    rcases Multiset.mem_cons.mp member with rfl | old
    · exact resetsTear
    · exact release.resetsTear other old
  alive alive := (release.alive alive).spawn (explained alive)

theorem release_act {Fits : Nat → Handle → Nat → Prop} (release : Release own x sent received)
    (step : x.Step Fits own id out after) (closes : ClosesAfterEnd id x after) :
    Release own after (sent ++ out) received := by
  have life := release.delivery.life
  have delivery := delivery_act release.delivery step
  cases step with
  | idle => simpa using release
  | @run task rest more put ran _ goroutine runs =>
    have lives := runs.lives
    have resumes : x.Resumes (task :: rest) (more ++ rest) ran _ :=
      goroutine.resumes lives.loop lives.threads
    obtain ⟨others, before, now⟩ := resumes.goroutines
    have here := release.resetsTear (task :: rest) (by simp [before])
    refine ⟨delivery, ?_, ?_⟩
    · intro tasks member
      rcases Multiset.mem_cons.mp (now ▸ member) with rfl | old
      · refine runs.undoes.resetsTear ?_
        unfold ResetsTear at here
        split at here <;> simp_all
      · exact release.resetsTear tasks (by simp [before, old])
    · intro alive
      have alive : x.closed = false := by rw [← lives.closed, ← resumes.closed, alive]
      have connected : x.transportClosed = false := by
        by_contra disconnected
        rw [life.transport (by simpa using disconnected)] at alive
        cases alive
      exact (release.alive alive).run runs resumes here connected
  | @close err tasks put notYet goroutine =>
    have resumes : x.Resumes tasks (x.closing id err ++ tasks)
        { x with closed := true, mapped := false } _ := goroutine.resumes rfl rfl
    obtain ⟨others, before, now⟩ := resumes.goroutines
    refine ⟨delivery, ?_, ?_⟩
    · intro other member
      rcases Multiset.mem_cons.mp (now ▸ member) with rfl | old
      · exact (release.resetsTear tasks (by simp [before])).append_closing err
      · exact release.resetsTear other (by simp [before, old])
    · intro alive
      rw [resumes.closed] at alive
      cases alive
  | startOther =>
    rw [List.append_nil] at delivery ⊢
    exact release.spawn delivery trivial fun _ => trivial
  | call present held called =>
    rw [List.append_nil] at delivery ⊢
    refine release.spawn delivery called.resetsTear fun alive => called.explained ?_
    rintro rfl
    rcases closes rfl with reof | closedOnce
    · exact Or.inl reof
    · exact (release.alive alive).reason closedOnce
  | create openMeta isOwn absent =>
    rw [List.append_nil] at delivery ⊢
    obtain ⟨-, allClose, silent, deaf⟩ := life.absent absent
    have old : ∀ tasks ∈ x.goroutines, ResetsTear tasks ∧ ∀ reason, Explained reason tasks := by
      intro tasks member
      have all := allClose tasks member
      clear member
      induction tasks with
      | nil => exact ⟨trivial, fun _ => trivial⟩
      | cons task rest hypothesis =>
        obtain rfl := all task (by simp)
        exact hypothesis fun next member => all next (by simp [member])
    have each : ∀ tasks ∈ Strand.goroutines
        { x with
          handle := some { stream := newStream x.limits.initialWindow openMeta }
          mapped := true
          threads := [.openFrame { id } openMeta] ::ₘ x.threads },
        ResetsTear tasks ∧ ∀ reason, Explained reason tasks := by
      intro tasks member
      rw [Strand.goroutines, Multiset.cons_swap] at member
      rcases Multiset.mem_cons.mp member with rfl | before
      · exact ⟨trivial, fun _ => trivial⟩
      · exact old tasks before
    refine ⟨delivery, fun tasks member => (each tasks member).1, fun _ => ?_⟩
    exact .fresh rfl (by simp [silent]) (by simp [deaf]) fun tasks member =>
      (each tasks member).2 _
  | accept isRemote present =>
    rw [List.append_nil] at delivery ⊢
    exact ⟨delivery, release.resetsTear, fun alive =>
      (release.alive alive).setHandle present rfl rfl rfl⟩
  | @read n handle step present held fits ran =>
    rw [List.append_nil] at delivery ⊢
    have kept : x.closed = false → Releasing
        { x with
          handle :=
            some
              { handle with
                stream := step.stream
                returned := handle.returned ++ step.result.data } } sent received := by
      intro alive
      refine (release.alive alive).setHandle present ?_ ?_ ?_ <;>
        cases GoStream.read_cases ran <;> rfl
    unfold Strand.afterRead at delivery ⊢
    split at delivery
    · rw [if_pos (by assumption)]
      refine ⟨delivery, ?_, fun alive => (kept alive).spawn (by simp [Explained])⟩
      intro tasks member
      rw [Strand.goroutines, Multiset.cons_swap] at member
      rcases Multiset.mem_cons.mp member with rfl | old
      · simp [ResetsTear]
      · exact release.resetsTear tasks old
    · rw [if_neg (by assumption)]
      exact ⟨delivery, release.resetsTear, kept⟩

/-- The idle read loop sets to work for a frame. -/
theorem Releasing.startLoop {tasks : List Task} {frame : Frame}
    (releasing : Releasing x sent received) (idle : x.loop = [])
    (explained : Explained (x.Reason sent (received ++ [frame])) tasks)
    (resets : frame.type = .fReset → tearsSoon tasks = true) :
    Releasing { x with loop := tasks } sent (received ++ [frame]) := by
  have still : x.Reason sent received → x.Reason sent (received ++ [frame]) := fun reason =>
    reason.mono (fun reof => reof) (List.prefix_refl _) (List.prefix_append ..)
  have elsewhere : ∀ {soon : List Task → Bool}, soon [] = false →
      (∃ other ∈ x.goroutines, soon other = true) →
        ∃ other ∈ Strand.goroutines { x with loop := tasks }, soon other = true := by
    rintro soon none ⟨other, member, holds⟩
    rcases Multiset.mem_cons.mp member with rfl | thread
    · rw [idle, none] at holds
      cases holds
    · exact ⟨other, Multiset.mem_cons_of_mem thread, holds⟩
  constructor
  case explained =>
    intro other member
    rcases Multiset.mem_cons.mp member with rfl | thread
    · exact explained
    · exact (releasing.explained other (Multiset.mem_cons_of_mem thread)).mono still
  case reason => exact fun closedOnce => still (releasing.reason closedOnce)
  case reset =>
    intro wasReset
    by_cases isReset : frame.type = .fReset
    · exact Or.inr ⟨tasks, Multiset.mem_cons_self .., resets isReset⟩
    · have before : WasReset sent ∨ WasReset received := by
        rw [wasReset_append] at wasReset
        rcases wasReset with sends | receives | ⟨other, member, kind⟩
        · exact Or.inl sends
        · exact Or.inr receives
        · rw [List.mem_singleton.mp member] at kind
          exact absurd kind isReset
      exact (releasing.reset before).imp_right (elsewhere rfl)
  case failing =>
    exact fun closedOnce => (releasing.failing closedOnce).imp_right (elsewhere rfl)

theorem release_receive {frame : Frame} (release : Release own x sent received)
    (hears : Hears own sent (received ++ [frame]))
    (order : Allowed EndsLast (received ++ [frame])) (idle : x.loop = [])
    (arrived : x.Receive own id frame after) :
    Release own after sent (received ++ [frame]) := by
  have delivery := delivery_receive release.delivery hears order idle arrived
  have startLoop : ∀ {tasks : List Task}, ResetsTear tasks →
      ∀ other ∈ Strand.goroutines { x with loop := tasks }, ResetsTear other := by
    intro tasks resetsTear other member
    rcases Multiset.mem_cons.mp member with rfl | thread
    · exact resetsTear
    · exact release.resetsTear other (Multiset.mem_cons_of_mem thread)
  cases arrived with
  | opened isOpen isRemote absent =>
    obtain ⟨-, -, silent, deaf⟩ := release.delivery.life.absent absent
    refine ⟨delivery, @startLoop [.acceptSend { id }] trivial, fun alive => ?_⟩
    refine .fresh rfl (by simp [silent]) (by simp [deaf, WasReset, isOpen]) ?_
    intro tasks member
    rcases Multiset.mem_cons.mp member with rfl | thread
    · trivial
    · have alive : x.closed = false := alive
      exact ((release.alive alive).explained tasks (Multiset.mem_cons_of_mem thread)).mono
        fun reason => absurd reason (by
          simp [Strand.Reason, Strand.view, newStream, absent, silent, deaf])
  | forward registered isOp =>
    refine ⟨delivery, startLoop trivial, fun alive =>
      (release.alive alive).startLoop idle ?_ ?_⟩
    · unfold Frame.op at isOp
      split at isOp <;> simp_all <;> subst isOp <;> trivial
    · intro isReset
      simp [Frame.op, isReset] at isOp
  | reset isReset registered =>
    refine ⟨delivery, startLoop trivial, fun alive =>
      (release.alive alive).startLoop idle ?_ fun _ => rfl⟩
    exact Or.inr (Or.inr (wasReset_append.mpr (Or.inr ⟨frame, by simp, isReset⟩)))
  | dropped notOpen unmapped =>
    refine ⟨delivery, release.resetsTear, fun alive => ?_⟩
    have releasing := release.alive alive
    have present : x.handle ≠ none := fun absent => by
      simpa using (delivery.life.absent absent).2.2.2
    have closedOnce : x.ClosedOnce := by
      rcases delivery.life.registered present unmapped with closed | once
      · rw [alive] at closed
        cases closed
      · exact once
    have still : x.Reason sent received → x.Reason sent (received ++ [frame]) := fun reason =>
      reason.mono (fun reof => reof) (List.prefix_refl _) (List.prefix_append ..)
    exact
      { explained := fun tasks member => (releasing.explained tasks member).mono still
        reason := fun once => still (releasing.reason once)
        reset := fun _ => Or.inl closedOnce
        failing := releasing.failing }

/-- Before anything has happened. -/
theorem release_start (own : Prop) (cfg : Config) (id : UInt32) :
    Release own ((newEndpoint cfg).strand id) [] [] where
  delivery := delivery_start own cfg id
  resetsTear := by
    simp [newEndpoint, Endpoint.strand, Strand.goroutines, ResetsTear]
  alive _ := by
    constructor <;>
      simp [newEndpoint, newSession, Endpoint.strand, Strand.goroutines, Explained,
        Strand.ClosedOnce]

end Release

/-! ### Sessions at rest -/

/-- No goroutine can go on. -/
def Endpoint.AtRest (e : Endpoint) : Prop :=
  (∀ k, e.act (.step k) = none) ∧ e.act .stepLoop = none

/-- A `Write` on the stream waits for window. -/
def Endpoint.WaitsForWindow (e : Endpoint) (r : Ref) : Prop :=
  ∃ p rest handle, .onStream r (.write p) :: rest ∈ e.threads ∧ e.heap r = some handle ∧
    handle.stream.smu = false ∧ handle.stream.writeNext p = .waits

/-- The stream was closed or reset at this end. -/
def Endpoint.HasClosed (e : Endpoint) (r : Ref) : Prop :=
  ∃ handle, e.heap r = some handle ∧ handle.stream.closeOnce = true

/-- All work of a goroutine is about one stream, or it is one task. -/
def OneStream (tasks : List Task) : Prop :=
  tasks.length ≤ 1 ∨ ∃ id, ∀ task ∈ tasks, task.concerns id = true

/-- Until the session closes, every goroutine works on one stream. -/
def Endpoint.Apart (e : Endpoint) : Prop :=
  e.session.closed = false → ∀ tasks ∈ e.loop :: e.threads, OneStream tasks

section AtRest

variable {client : Bool} {e after : Endpoint} {sent received : List Frame} {id : UInt32}

theorem OneStream.one (task : Task) : OneStream [task] := Or.inl (Nat.le_refl _)

theorem OneStream.all {tasks : List Task} (concern : ∀ task ∈ tasks, task.concerns id = true) :
    OneStream tasks := Or.inr ⟨id, concern⟩

/-- Unless it closes the session, a goroutine goes on with the stream that it works on. -/
theorem Endpoint.exec_apart {task : Task} {rest : List Task} {move : Move}
    (ran : e.exec task = some move) (alive : move.after.session.closed = false) :
    e.session.closed = false ∧
      (OneStream (task :: rest) → OneStream (move.continues ++ rest)) := by
  have goesOn : (∀ next ∈ move.continues, ∀ id, task.concerns id = true →
        next.concerns id = true) → OneStream move.continues →
      OneStream (task :: rest) → OneStream (move.continues ++ rest) := by
    intro concern alone one
    rcases one with short | ⟨id, all⟩
    · have none : rest = [] := by simpa using short
      rwa [none, List.append_nil]
    · refine @OneStream.all id _ fun next member => ?_
      rcases List.mem_append.mp member with more | old
      · exact concern next more id (all task (by simp))
      · exact all next (by simp [old])
  cases task with
  | openFrame r openMeta =>
    simp only [Endpoint.exec] at ran
    split at ran
    · cases ran
      exact ⟨alive, goesOn (by simp [Task.concerns]) (.one _)⟩
    · obtain ⟨handle, present, rfl⟩ := Option.map_eq_some_iff.mp ran
      exact ⟨alive, goesOn (by simp) (Or.inl (by simp))⟩
  | onStream r op =>
    obtain ⟨handle, present, ran⟩ := Option.bind_eq_some_iff.mp ran
    obtain ⟨effect, -, rfl⟩ := Option.map_eq_some_iff.mp ran
    have all : ∀ next ∈ effect.continues.map (Task.onStream r) ++
        (if effect.sendEnd then [Task.writeFrame .fEnd r.id []] else []),
        next.concerns r.id = true := by
      intro next member
      rcases List.mem_append.mp member with more | ending
      · obtain ⟨op', -, rfl⟩ := List.mem_map.mp more
        simp [Task.concerns]
      · split at ending <;> simp at ending
        simp [ending, Task.concerns, FrameType.OfStream]
    refine ⟨alive, goesOn (fun next member other concerned => ?_) (.all all)⟩
    have same : r.id = other := by simpa [Task.concerns] using concerned
    exact same ▸ all next member
  | acceptSend r =>
    simp only [Endpoint.exec] at ran
    split at ran
    · cases ran
      exact ⟨alive, goesOn (by simp) (Or.inl (by simp))⟩
    · split at ran <;> cases ran
      exact ⟨alive, goesOn (by simp) (Or.inl (by simp))⟩
  | closeWithErr err =>
    simp only [Endpoint.exec] at ran
    split at ran
    · cases ran
      exact ⟨alive, goesOn (by simp) (Or.inl (by simp))⟩
    · cases ran
      cases alive
  | _ =>
    cases ran
    exact ⟨alive, goesOn (by simp) (Or.inl (by simp))⟩

theorem Endpoint.Apart.spawn (apart : e.Apart) {tasks : List Task} (one : OneStream tasks) :
    (e.spawn tasks).Apart := by
  intro alive other member
  simp only [Endpoint.spawn, List.mem_cons, List.mem_append, List.not_mem_nil,
    or_false] at member
  rcases member with rfl | old | rfl
  · exact apart alive e.loop (by simp)
  · exact apart alive other (by simp [old])
  · exact one

theorem Naming.act_apart {a : Act} {out : List Bytes} (naming : Naming client e sent received)
    (apart : e.Apart) (acted : e.act a = some (after, out)) : after.Apart := by
  have kept : ∀ {r : Ref} {handle : Handle}, (e.setHandle r handle).Apart := apart
  cases Endpoint.acted_of_act acted with
  | openStream | closeSession | ping => exact apart.spawn (.one _)
  | accept | read => exact apart
  | readGrant => exact kept.spawn (.one _)
  | @call a r tasks calls _ =>
    refine apart.spawn (@OneStream.all r.id _ ?_)
    cases a <;> cases calls <;> simp [Task.concerns, FrameType.OfStream]
  | readError _ =>
    intro alive tasks member
    rcases List.mem_cons.mp member with rfl | thread
    · exact .one _
    · exact apart alive tasks (by simp [thread])
  | @step k task rest move found ran =>
    have here := List.mem_of_getElem? found
    have keeps := Endpoint.exec_keeps
      (naming.plain (List.mem_append_right _ (List.mem_flatten_of_mem here (by simp)))) ran
    intro alive tasks member
    obtain ⟨still, one⟩ := @Endpoint.exec_apart e task rest move ran alive
    rcases List.mem_cons.mp member with rfl | thread
    · exact apart still _ (by simp [keeps.loop])
    · rcases List.mem_or_eq_of_mem_set thread with old | rfl
      · exact apart still tasks (by simp [old])
      · exact one (apart still _ (List.mem_cons_of_mem _ here))
  | @stepLoop task rest move found ran =>
    have keeps := Endpoint.exec_keeps (naming.plain (by simp [Endpoint.tasks, found])) ran
    intro alive tasks member
    obtain ⟨still, one⟩ := @Endpoint.exec_apart e task rest move ran alive
    rcases List.mem_cons.mp member with rfl | thread
    · exact one (apart still _ (by simp [found]))
    · exact apart still tasks (by simp [← keeps.threads, thread])

theorem Naming.receive_apart {message : Bytes} (naming : Naming client e sent received)
    (apart : e.Apart) (arrived : e.receive message = some after) : after.Apart := by
  have set : ∀ {tasks : List Task}, OneStream tasks →
      Endpoint.Apart { e with loop := tasks } := by
    intro tasks one alive other member
    rcases List.mem_cons.mp member with rfl | thread
    · exact one
    · exact apart alive other (by simp [thread])
  simp only [Endpoint.receive] at arrived
  split at arrived
  · cases decoded : decodeFrame message with
    | none =>
      simp only [decoded, Option.some.injEq] at arrived
      exact arrived ▸ apart
    | some frame =>
      simp only [decoded, Option.some.injEq] at arrived
      subst arrived
      unfold Endpoint.dispatch
      dsimp only
      split
      · exact set (.one _)
      · exact apart
      · exact set (.one _)
      · split
        · exact set (.one _)
        · exact apart
      · split
        · exact set (.one _)
        · exact apart
      · split
        next r found =>
          have same := (naming.registered found).1
          exact set (@OneStream.all frame.streamID _ (by simp [Task.concerns, same]))
        · exact apart
      · split
        · exact set (.one _)
        · exact apart
      · split
        · exact set (.one _)
        · exact apart
      · exact apart
  · cases arrived

/-- The tasks that concern two streams concern all. -/
theorem Task.concerns_inj {task : Task} {other : UInt32} (here : task.concerns id = true)
    (there : task.concerns other = true) : task = .closeTransport ∨ id = other := by
  cases task <;> simp_all [Task.concerns]

/-- What a goroutine of a session at rest would do next on the stream waits. -/
theorem Endpoint.AtRest.waits {task : Task} {rest : List Task} (resting : e.AtRest)
    (apart : e.Apart) (alive : e.session.closed = false)
    (member : task :: rest ∈ (e.strand id).goroutines) (transport : task ≠ .closeTransport) :
    task ∈ e.tasks ∧ task.concerns id = true ∧ e.exec task = none := by
  obtain ⟨full, among, filtered⟩ : ∃ full ∈ e.loop :: e.threads,
      full.filter (Task.concerns id) = task :: rest := by
    rcases Multiset.mem_cons.mp member with loop | thread
    · exact ⟨e.loop, by simp, loop.symm⟩
    · have thread : task :: rest ∈
          (e.threads : Multiset (List Task)).map (List.filter (Task.concerns id)) := thread
      obtain ⟨full, inThreads, same⟩ := Multiset.mem_map.mp thread
      exact ⟨full, by simpa using Or.inr inThreads, same⟩
  have inFull : task ∈ full ∧ task.concerns id = true := by
    rw [← List.mem_filter, filtered]
    simp
  have whole : full = task :: rest := by
    rcases apart alive full among with short | ⟨other, all⟩
    · obtain ⟨only, rfl⟩ : ∃ only, full = [only] :=
        List.length_eq_one_iff.mp (Nat.le_antisymm short (List.length_pos_of_mem inFull.1))
      obtain rfl : task = only := by simpa using inFull.1
      rw [← filtered, List.filter_cons_of_pos inFull.2, List.filter_nil]
    · obtain rfl := (Task.concerns_inj inFull.2 (all task inFull.1)).resolve_left transport
      rw [← filtered, List.filter_eq_self.mpr all]
  subst whole
  refine ⟨?_, inFull.2, ?_⟩
  · rcases List.mem_cons.mp among with loop | thread
    · simp [Endpoint.tasks, ← loop]
    · exact List.mem_append_right _ (List.mem_flatten_of_mem thread (by simp))
  · rcases List.mem_cons.mp among with loop | thread
    · have stops := resting.2
      simp only [Endpoint.act, ← loop] at stops
      exact Option.map_eq_none_iff.mp stops
    · obtain ⟨k, found⟩ := List.getElem?_of_mem thread
      have stops := resting.1 k
      simp only [Endpoint.act, found] at stops
      exact Option.map_eq_none_iff.mp stops

/-- No goroutine of a session at rest is about to tear down a stream whose send mutex is free. -/
theorem Naming.not_soon {handle : Handle} (naming : Naming client e sent received)
    (resting : e.AtRest) (apart : e.Apart) (alive : e.session.closed = false)
    (present : e.heap { id } = some handle) (free : handle.stream.smu = false)
    {tasks : List Task} (member : tasks ∈ (e.strand id).goroutines) :
    tearsSoon tasks = false ∧ failsSoon tasks = false := by
  cases tasks with
  | nil => exact ⟨rfl, rfl⟩
  | cons task rest =>
    have stuck := fun transport => resting.waits apart alive member transport
    have onStream : ∀ {r op}, task = .onStream r op → r = { id } := by
      rintro r op rfl
      obtain ⟨known, concerned, -⟩ := stuck (by simp)
      rw [naming.ref_eq (naming.tasksKnown known r (by simp [Task.refs]))]
      simpa [Task.concerns] using concerned
    cases task with
    | writeFrame type other payload =>
      have waits := (stuck (by simp)).2.2
      simp [Endpoint.exec] at waits
    | onStream r op =>
      obtain rfl := onStream rfl
      have waits := (stuck (by simp)).2.2
      cases op with
      | closeWrite =>
        simp only [Endpoint.exec, present, Option.bind_some, GoStream.exec, free,
          Option.map_eq_none_iff, Bool.false_eq_true, if_false] at waits
        split at waits <;> cases waits
      | teardown err =>
        simp only [Endpoint.exec, present, Option.bind_some, GoStream.exec] at waits
        split at waits <;> simp at waits
      | teardownRecv err =>
        simp [Endpoint.exec, present, GoStream.exec] at waits
      | teardownSend err =>
        simp [Endpoint.exec, present, GoStream.exec, free] at waits
      | _ => exact ⟨rfl, rfl⟩
    | _ => exact ⟨rfl, rfl⟩

theorem GoStream.writeNext_waits {st : GoStream} {p : Bytes} (waits : st.writeNext p = .waits) :
    st.window = 0 ∧ st.serr = none ∧ st.sdone = false := by
  unfold GoStream.writeNext at waits
  split_ifs at waits with empty shut
  exact shut

/-- A stream on which a `Write` waits, with its session at rest, was neither reset nor ended. -/
theorem Release.not_reset {own : Prop} {sends hears : List Frame}
    (release : Release own (e.strand id) sends hears) (naming : Naming client e sent received)
    (resting : e.AtRest) (apart : e.Apart) (alive : e.session.closed = false)
    (waits : e.WaitsForWindow { id }) :
    ¬ WasReset sends ∧ ¬ WasReset hears ∧ ¬ Ended sends := by
  obtain ⟨p, rest, handle, -, present, free, waits⟩ := waits
  obtain ⟨-, working, notDone⟩ := GoStream.writeNext_waits waits
  have view : (e.strand id).view = handle := by
    change (e.heap { id }).getD _ = _
    rw [present]
    rfl
  have releasing := release.alive alive
  have notReset : ¬ (WasReset sends ∨ WasReset hears) := by
    intro wasReset
    have soon := fun tasks member => @Naming.not_soon client e sent received id handle naming
      resting apart alive present free tasks member
    rcases releasing.reset wasReset with closedOnce | ⟨tasks, member, tears⟩
    · rcases releasing.failing closedOnce with failed | ⟨tasks, member, fails⟩
      · exact failed (by rw [view, working])
      · rw [(soon tasks member).2] at fails
        cases fails
    · rw [(soon tasks member).1] at tears
      cases tears
  refine ⟨fun sent => notReset (Or.inl sent), fun heard => notReset (Or.inr heard), ?_⟩
  intro ended
  have done := release.delivery.send.ended ended
  rw [view, notDone] at done
  cases done

end AtRest

/-! ### Sessions that close what has ended -/

/-- A move of a session that does not run out of ids, and in which `Close` is called on a stream
only after its peer's END, or after a teardown. -/
def Act.Courteous (e : Endpoint) : Act → Prop
  | .openStream _ => e.opened < maxOpened
  | .close r => ∀ handle, e.heap r = some handle →
      handle.stream.reof = true ∨ handle.stream.closeOnce = true
  | _ => True

theorem Act.Courteous.within {e : Endpoint} {a : Act} (courteous : a.Courteous e) :
    a.Within (fun _ _ _ => True) e := by
  cases a with
  | openStream openMeta => exact courteous
  | read r n => exact fun _ _ => trivial
  | _ => trivial

section Courteous

variable {client : Bool} {e after : Endpoint} {sent received : List Frame} {id : UInt32}

/-- A move starts at most one goroutine, and only `Close` one that fails a stream as closed. -/
theorem Naming.act_threads {a : Act} {out : List Bytes} (naming : Naming client e sent received)
    (acted : e.act a = some (after, out)) (id : UInt32) :
    after.threads.length = e.threads.length ∨
      ∃ tasks, after.threads = e.threads ++ [tasks] ∧
        (.onStream { id } (.teardown .streamClosed) ∈ tasks → a = .close { id }) := by
  cases Endpoint.acted_of_act acted with
  | openStream | readGrant | closeSession | ping => exact Or.inr ⟨_, rfl, by simp⟩
  | accept | read | readError => exact Or.inl rfl
  | @call a r tasks calls _ =>
    refine Or.inr ⟨tasks, rfl, ?_⟩
    cases a <;> cases calls <;> simp +contextual
  | step => exact Or.inl (by simp)
  | stepLoop found ran =>
    have keeps := Endpoint.exec_keeps (naming.plain (by simp [Endpoint.tasks, found])) ran
    exact Or.inl (by simp [keeps.threads])

/-- A session that closes what has ended closes each of its streams after the END. -/
theorem Naming.closes_after_end {a : Act} {out : List Bytes}
    (naming : Naming client e sent received) (courteous : a.Courteous e)
    (acted : e.act a = some (after, out)) (id : UInt32) :
    ClosesAfterEnd id (e.strand id) (after.strand id) := by
  intro starts
  have starts : (after.threads : Multiset (List Task)).map (List.filter (Task.concerns id)) =
      closeTasks id ::ₘ
        (e.threads : Multiset (List Task)).map (List.filter (Task.concerns id)) := starts
  rcases naming.act_threads acted id with same | ⟨tasks, threads, only⟩
  · have sizes := congrArg Multiset.card starts
    simp [same] at sizes
  · have new : tasks.filter (Task.concerns id) = closeTasks id := by
      rw [threads, ← Multiset.coe_add, Multiset.map_add, Multiset.add_comm,
        Multiset.coe_singleton, Multiset.map_singleton, Multiset.singleton_add] at starts
      exact (Multiset.cons_inj_left _).mp starts
    have member : .onStream { id } (.teardown .streamClosed) ∈ tasks := by
      have inFilter : Task.onStream { id } (.teardown .streamClosed) ∈
          tasks.filter (Task.concerns id) := by simp [new, closeTasks]
      exact (List.mem_filter.mp inFilter).1
    obtain rfl := only member
    obtain ⟨holds, -, -⟩ := Endpoint.call_eq_some.mp acted
    obtain ⟨handle, present, -⟩ := Endpoint.holds_iff.mp holds
    refine (courteous handle present).imp ?_ fun once => ⟨handle, present, once⟩
    intro reof
    change ((e.heap { id }).getD _).stream.reof = true
    rw [present]
    exact reof

/-- What a session may assume of the other end, whichever implementation that is. -/
def Around (client : Bool) (sent received : List Bytes) : Prop :=
  Foreign client (frames received) ∧
    ∀ id, Hears (Own client id) (about id (frames sent)) (about id (frames received)) ∧
      Allowed EndsLast (about id (frames received))

/-- The invariant of a Go session. -/
def GoInv (client : Bool) (e : Endpoint) (sent received : List Bytes) : Prop :=
  SessionInv client (fun id => Release (Own client id)) e sent received ∧ e.Apart

theorem go_contract (client : Bool) :
    Contract (goPartyWhen fun e a => a.Courteous e) (GoInv client) (Around client) := by
  have strand : ∀ id, Strand.Keeps (fun _ _ _ => True) (ClosesAfterEnd id) (Own client id) id
      (Release (Own client id)) fun sent received =>
        Hears (Own client id) sent received ∧ Allowed EndsLast received := fun id =>
    { act := fun release _ step closes => release_act release step closes
      receive := fun release assumed _ idle arrived =>
        release_receive release assumed.1 assumed.2 idle arrived }
  have session := @session_keeps client (fun e a => a.Courteous e) (fun _ _ _ => True)
    ClosesAfterEnd (fun id => Release (Own client id)) _ (Around client) strand
    Act.Courteous.within
    (fun naming courteous acted id => naming.closes_after_end courteous acted id)
    And.left (fun around id => around.2 id)
  constructor
  · rintro before after sent received out ⟨inv, apart⟩ around moved
    refine ⟨session.act inv around moved, ?_⟩
    obtain ⟨a, -, acted⟩ := moved
    exact inv.1.act_apart apart acted
  · rintro before after sent received out message ⟨inv, apart⟩ around moved
    refine ⟨session.receive inv around moved, ?_⟩
    obtain ⟨_, arrived, ⟨⟩⟩ := Option.map_eq_some_iff.mp moved
    exact inv.1.receive_apart apart arrived

theorem go_start (cfg : Config) : GoInv cfg.client (newEndpoint cfg) [] [] :=
  ⟨⟨Naming.start rfl, fun id => release_start _ cfg id⟩, by
    simp [Endpoint.Apart, newEndpoint, OneStream]⟩

/-- A Go session is what the other end may assume. -/
theorem GoInv.around {client : Bool} {sent received : List Bytes}
    (rely : Rely (GoInv (!client)) sent received) : Around client sent received := by
  have session : Rely (SessionInv (!client) fun id => Release (Own (!client) id)) sent received :=
    Rely.mono rely And.left
  refine ⟨Rely.foreign session, fun id => ?_⟩
  have strand : Rely (Delivery (¬ Own client id)) (about id (frames sent))
      (about id (frames received)) := by
    rw [show (¬ Own client id) = Own (!client) id from propext not_own_iff]
    exact Rely.mono (Rely.ofStrand session id) Release.delivery
  exact ⟨Rely.delivery_hears strand, Rely.endsLast strand⟩

end Courteous

end HelixKit.Stream
