/-
Purpose: A Go session that nobody closes, resets or loses: every goroutine has at
  most one thing left to do, whoever holds a send mutex is about to write, and
  every stream is with the application or on its way to it.
Trusted boundary: none
-/
import HelixKit.Stream.FlowControl

namespace HelixKit.Stream

open HelixKit.Duplex

/-- The application closes and resets nothing, and the transport does not fail. -/
def Act.Calm : Act → Prop
  | .close _ | .reset _ _ | .closeSession | .readError => False
  | _ => True

/-- The section tears nothing down. -/
def StreamOp.Calm : StreamOp → Prop
  | .teardown _ | .teardownRecv _ | .teardownSend _ | .closeSignals => False
  | _ => True

/-- The task closes and resets nothing. -/
def Task.Calm : Task → Prop
  | .writeFrame type _ _ => type ≠ .fReset ∧ ∀ code, type ≠ .unknown code
  | .openFrame _ _ | .acceptSend _ => True
  | .onStream _ op => op.Calm
  | _ => False

/-- The task is the read loop's. -/
def Task.Inbound : Task → Prop
  | .acceptSend _ => True
  | .writeFrame type _ _ => type = .fPong
  | .onStream _ (.onData _) | .onStream _ .onEnd => True
  | .onStream _ (.onCredit _) | .onStream _ (.onSignal _) => True
  | _ => False

/-- The stream has no reason to fail. -/
structure Working (st : GoStream) : Prop where
  closeOnce : st.closeOnce = false
  rerr : st.rerr = none
  serr : st.serr = none
  signals : st.signalsClosed = false

/-- The session is in use, and so is every stream. -/
structure Healthy (e : Endpoint) : Prop where
  running : e.panicked = false
  closed : e.session.closed = false
  connected : e.transportClosed = false
  reading : e.readLoopDone = false
  working : ∀ r handle, e.heap r = some handle → Working handle.stream

/-- What running a calm task does. -/
structure Move.Gentle (e : Endpoint) (task : Task) (move : Move) : Prop where
  healthy : Healthy move.after
  short : move.continues.length ≤ 1
  calm : ∀ next ∈ move.continues, next.Calm
  inbound : task.Inbound → move.continues = []
  sent : ∀ frame ∈ frames move.out, frame.type ≠ .fReset
  locked : ∀ r handle, move.after.heap r = some handle → handle.stream.smu = true →
    (∃ old, e.heap r = some old ∧ old.stream.smu = true ∧
        ∀ p, task ≠ .onStream r (.writing p)) ∨
      ∃ p, move.continues = [.onStream r (.writing p)]
  held : ∀ r handle, move.after.heap r = some handle →
    ∃ old, e.heap r = some old ∧ (old.held = true → handle.held = true)
  opened : ∀ r openMeta, task = .openFrame r openMeta →
    ∀ handle, move.after.heap r = some handle → handle.held = true
  accept : e.session.accept ⊆ move.after.session.accept
  accepted : ∀ r, task = .acceptSend r → r ∈ move.after.session.accept
  loop : move.after.loop = e.loop
  threads : move.after.threads = e.threads

/-- What a calm section does to the stream and to its send mutex. -/
theorem exec_calm {maxChunk : Nat} {st : GoStream} {op : StreamOp} {effect : StreamEffect}
    (working : Working st) (calm : op.Calm) (ran : st.exec maxChunk false op = some effect) :
    Working effect.stream ∧ effect.panics = false ∧
      ((effect.continues = [] ∨ ∃ next : StreamOp, effect.continues = [next] ∧ next.Calm) ∧
        (effect.sendEnd = true → effect.continues = [])) ∧
      (effect.stream.smu = true →
        (st.smu = true ∧ ∀ p, op ≠ .writing p) ∨
          effect.sendEnd = false ∧ ∃ p, effect.continues = [.writing p]) := by
  have signals := working.signals
  cases op with
  | onSignal payload =>
    simp only [GoStream.exec, signals, Bool.false_eq_true, if_false] at ran
    split at ran <;> cases ran <;>
      exact ⟨⟨working.closeOnce, working.rerr, working.serr, by simp [signals]⟩, rfl,
        by simp, by simp +contextual⟩
  | teardown err | teardownRecv err | teardownSend err | closeSignals => exact absurd calm id
  | _ =>
    cases GoStream.exec_cases ran <;>
      first
      | contradiction
      | exact ⟨⟨working.closeOnce, working.rerr, working.serr, signals⟩, rfl,
          by simp [StreamOp.Calm], by simp +contextual⟩

variable {e : Endpoint} {task : Task}

theorem Endpoint.exec_gentle {move : Move} (healthy : Healthy e)
    (calm : task.Calm) (ran : e.exec task = some move) : move.Gentle e task := by
  cases task with
  | writeFrame type streamID payload =>
    obtain ⟨notReset, named⟩ := calm
    cases ran
    constructor
    · exact healthy
    · simp
    · simp
    · simp
    · simpa [healthy.connected, named] using notReset
    · intro r handle present locked
      exact Or.inl ⟨handle, present, locked, by simp⟩
    · exact fun r handle present => ⟨handle, present, id⟩
    · simp
    · exact List.Subset.refl _
    · simp
    · rfl
    · rfl
  | openFrame r openMeta =>
    simp only [Endpoint.exec, healthy.connected, Bool.false_eq_true, if_false,
      Option.map_eq_some_iff] at ran
    obtain ⟨handle, present, rfl⟩ := ran
    have old (other : Ref) (found : Handle)
        (is : (e.setHandle r { handle with held := true }).heap other = some found) :
        ∃ before, e.heap other = some before ∧ found.stream = before.stream ∧
          (before.held = true → found.held = true) ∧ (other = r → found.held = true) := by
      by_cases own : other = r
      · subst own
        simp only [Endpoint.setHandle, Function.update_self, Option.some.injEq] at is
        subst is
        exact ⟨handle, present, rfl, by simp, by simp⟩
      · simp only [Endpoint.setHandle, Function.update_of_ne own] at is
        exact ⟨found, is, rfl, id, fun same => absurd same own⟩
    constructor
    · refine { healthy with working := ?_ }
      intro other found is
      obtain ⟨before, was, same, -⟩ := old other found is
      exact same ▸ healthy.working other before was
    · simp
    · simp
    · simp
    · simp
    · intro other found is locked
      obtain ⟨before, was, same, -⟩ := old other found is
      exact Or.inl ⟨before, was, same ▸ locked, by simp⟩
    · intro other found is
      obtain ⟨before, was, -, held, -⟩ := old other found is
      exact ⟨before, was, held⟩
    · intro other meta_ same found is
      cases same
      obtain ⟨-, -, -, -, held⟩ := old r found is
      exact held rfl
    · exact List.Subset.refl _
    · simp
    · rfl
    · rfl
  | onStream r op =>
    simp only [Endpoint.exec, healthy.connected, Option.bind_eq_some_iff,
      Option.map_eq_some_iff] at ran
    obtain ⟨handle, present, effect, exec, rfl⟩ := ran
    obtain ⟨working, silent, ⟨continues, ends⟩, locks⟩ :=
      exec_calm (healthy.working r handle present) calm exec
    have old (other : Ref) (found : Handle)
        (is : (e.setHandle r
          { handle with
            stream := effect.stream
            accepted := handle.accepted ++ effect.data.getD [] }).heap other =
          some found) :
        ∃ before, e.heap other = some before ∧ found.held = before.held ∧
          (other = r ∧ found.stream = effect.stream ∧ before.stream = handle.stream ∨
            other ≠ r ∧ found = before) := by
      by_cases own : other = r
      · subst own
        simp only [Endpoint.setHandle, Function.update_self, Option.some.injEq] at is
        subst is
        exact ⟨handle, present, rfl, Or.inl ⟨rfl, rfl, rfl⟩⟩
      · simp only [Endpoint.setHandle, Function.update_of_ne own] at is
        exact ⟨found, is, rfl, Or.inr ⟨own, rfl⟩⟩
    constructor
    · refine { healthy with running := by simp [healthy.running, silent], working := ?_ }
      intro other found is
      obtain ⟨before, was, -, ⟨-, same, -⟩ | ⟨-, rfl⟩⟩ := old other found is
      · exact same ▸ working
      · exact healthy.working other found was
    · rcases continues with none | ⟨next, one, -⟩
      · simp only [none, List.map_nil, List.nil_append]
        split <;> simp
      · cases ending : effect.sendEnd with
        | true => simp [ends ending] at one
        | false => simp [one]
    · intro next isIn
      rcases List.mem_append.mp isIn with own | frame
      · obtain ⟨op, isOp, rfl⟩ := List.mem_map.mp own
        rcases continues with none | ⟨next, one, calm⟩
        · simp [none] at isOp
        · rw [one, List.mem_singleton] at isOp
          exact isOp ▸ calm
      · split at frame
        · cases List.mem_singleton.mp frame
          exact ⟨by simp, by simp⟩
        · cases frame
    · intro inbound
      cases op <;> first | exact absurd inbound id | (cases GoStream.exec_cases exec <;> rfl)
    · intro frame isIn
      cases is : effect.data with
      | none => simp [is] at isIn
      | some data =>
        simp only [is, Option.map_some, Option.toList_some, ne_eq, reduceCtorEq,
          not_false_eq_true, implies_true, frames_encodeFrame, List.mem_singleton] at isIn
        simp [isIn]
    · intro other found is locked
      obtain ⟨before, was, -, ⟨rfl, same, start⟩ | ⟨own, rfl⟩⟩ := old other found is
      · rcases locks (same ▸ locked) with ⟨still, other⟩ | ⟨quiet, bytes, writes⟩
        · refine Or.inl ⟨before, was, start ▸ still, ?_⟩
          intro bytes isWriting
          cases isWriting
          exact other bytes rfl
        · exact Or.inr ⟨bytes, by simp [writes, quiet]⟩
      · refine Or.inl ⟨found, was, locked, ?_⟩
        intro bytes isWriting
        cases isWriting
        exact own rfl
    · intro other found is
      obtain ⟨before, was, held, -⟩ := old other found is
      exact ⟨before, was, fun wasHeld => held.trans wasHeld⟩
    · simp
    · exact List.Subset.refl _
    · simp
    · rfl
    · rfl
  | acceptSend r =>
    simp only [Endpoint.exec, healthy.closed, Bool.false_eq_true, if_false] at ran
    split at ran <;> cases ran
    constructor
    · exact { healthy with closed := rfl }
    · simp
    · simp
    · simp
    · simp
    · intro other handle present locked
      exact Or.inl ⟨handle, present, locked, by simp⟩
    · exact fun other handle present => ⟨handle, present, id⟩
    · simp
    · exact List.subset_append_left _ _
    · intro other same
      cases same
      simp
    · rfl
    · rfl
  | removeStream streamID | closeWithErr err | closeTransport => exact absurd calm id

/-! ### The invariant -/

/-- A session that nobody closes. -/
structure Tame (e : Endpoint) : Prop where
  healthy : Healthy e
  short : ∀ tasks ∈ e.loop :: e.threads, tasks.length ≤ 1
  calm : ∀ tasks ∈ e.loop :: e.threads, ∀ task ∈ tasks, task.Calm
  inbound : ∀ task ∈ e.loop, task.Inbound
  holder : ∀ r handle, e.heap r = some handle → handle.stream.smu = true →
    ∃ p, [.onStream r (.writing p)] ∈ e.threads
  served : ∀ r handle, e.heap r = some handle →
    handle.held = true ∨ r ∈ e.session.accept ∨ e.loop = [.acceptSend r] ∨
      ∃ openMeta, [.openFrame r openMeta] ∈ e.threads

theorem tame_start (cfg : Config) : Tame (newEndpoint cfg) := by
  constructor
  · constructor <;> simp [newEndpoint, newSession]
  all_goals simp [newEndpoint]

theorem mem_set_of_ne {α : Type*} {xs : List α} {n : Nat} {x old new : α}
    (found : xs[n]? = some old) (isIn : x ∈ xs) (other : x ≠ old) : x ∈ xs.set n new := by
  obtain ⟨k, inside, rfl⟩ := List.mem_iff_getElem.mp isIn
  have apart : n ≠ k := by
    rintro rfl
    rw [List.getElem?_eq_getElem inside] at found
    exact other (Option.some.inj found)
  apply List.mem_iff_getElem.mpr
  exact ⟨k, by simpa using inside, by simp [List.getElem_set_ne apart]⟩

/-- A goroutine of a call runs its task. -/
theorem Tame.thread {n : Nat} {rest : List Task} {move : Move}
    (tame : Tame e) (found : e.threads[n]? = some (task :: rest)) (gentle : move.Gentle e task) :
    Tame { move.after with threads := e.threads.set n (move.continues ++ rest) } := by
  have keeps := gentle.loop
  have isIn : task :: rest ∈ e.threads := List.mem_of_getElem? found
  have alone : rest = [] := by
    have := tame.short _ (List.mem_cons_of_mem _ isIn)
    simpa using this
  subst alone
  have inside : n < e.threads.length := (List.getElem?_eq_some_iff.mp found).1
  have new : move.continues ∈ e.threads.set n (move.continues ++ []) := by
    rw [List.append_nil]
    exact List.mem_set inside _
  have among_cases (tasks : List Task)
      (among : tasks ∈ move.after.loop :: e.threads.set n (move.continues ++ [])) :
      tasks = move.continues ∨ tasks ∈ e.loop :: e.threads := by
    rw [keeps, List.append_nil] at among
    rcases List.mem_cons.mp among with own | changed
    · exact Or.inr (List.mem_cons.mpr (Or.inl own))
    · rcases List.mem_or_eq_of_mem_set changed with old | same
      · exact Or.inr (List.mem_cons_of_mem _ old)
      · exact Or.inl same
  constructor
  · exact { gentle.healthy with }
  · intro tasks among
    rcases among_cases tasks among with rfl | old
    · exact gentle.short
    · exact tame.short tasks old
  · intro tasks among
    rcases among_cases tasks among with rfl | old
    · exact gentle.calm
    · exact tame.calm tasks old
  · exact keeps ▸ tame.inbound
  · intro r handle present locked
    rcases gentle.locked r handle present locked with ⟨old, was, still, other⟩ | ⟨p, writes⟩
    · obtain ⟨p, holds⟩ := tame.holder r old was still
      exact ⟨p, mem_set_of_ne found holds fun same => other p (by simpa using same.symm)⟩
    · exact ⟨p, writes ▸ new⟩
  · intro r handle present
    obtain ⟨old, was, held⟩ := gentle.held r handle present
    rcases tame.served r old was with wasHeld | queued | sending | ⟨openMeta, opening⟩
    · exact Or.inl (held wasHeld)
    · exact Or.inr (Or.inl (gentle.accept queued))
    · exact Or.inr (Or.inr (Or.inl (keeps.trans sending)))
    · by_cases own : task = .openFrame r openMeta
      · exact Or.inl (gentle.opened r openMeta own handle present)
      · refine Or.inr (Or.inr (Or.inr ⟨openMeta, ?_⟩))
        exact mem_set_of_ne found opening fun same => own (by simpa using same.symm)

/-- The read loop runs its task. -/
theorem Tame.stepLoop {e : Endpoint} {task : Task} {rest : List Task} {move : Move}
    (tame : Tame e) (loop : e.loop = task :: rest) (gentle : move.Gentle e task) :
    Tame { move.after with loop := move.continues ++ rest } := by
  have keeps := gentle.threads
  have alone : rest = [] := by
    have := tame.short e.loop List.mem_cons_self
    simpa [loop] using this
  subst alone
  have done : move.continues = [] := gentle.inbound (tame.inbound task (by simp [loop]))
  have notWriting (r : Ref) (p : Bytes) : task ≠ .onStream r (.writing p) := by
    rintro rfl
    exact tame.inbound _ (by rw [loop]; exact List.mem_cons_self)
  constructor
  · exact { gentle.healthy with }
  · intro tasks among
    rcases List.mem_cons.mp among with rfl | old
    · simp [done]
    · exact tame.short tasks (List.mem_cons_of_mem _ (keeps ▸ old))
  · intro tasks among
    rcases List.mem_cons.mp among with rfl | old
    · simp [done]
    · exact tame.calm tasks (List.mem_cons_of_mem _ (keeps ▸ old))
  · simp [done]
  · intro r handle present locked
    rcases gentle.locked r handle present locked with ⟨old, was, still, -⟩ | ⟨p, writes⟩
    · obtain ⟨p, holds⟩ := tame.holder r old was still
      exact ⟨p, keeps ▸ holds⟩
    · simp [done] at writes
  · intro r handle present
    obtain ⟨old, was, held⟩ := gentle.held r handle present
    rcases tame.served r old was with wasHeld | queued | sending | ⟨openMeta, opening⟩
    · exact Or.inl (held wasHeld)
    · exact Or.inr (Or.inl (gentle.accept queued))
    · rw [loop] at sending
      cases sending
      exact Or.inr (Or.inl (gentle.accepted r rfl))
    · exact Or.inr (Or.inr (Or.inr ⟨openMeta, keeps ▸ opening⟩))

theorem Tame.spawn (tame : Tame e) (calm : task.Calm) :
    Tame (e.spawn [task]) := by
  have among_cases (tasks : List Task) (among : tasks ∈ e.loop :: (e.threads ++ [[task]])) :
      tasks = [task] ∨ tasks ∈ e.loop :: e.threads := by
    simp only [List.mem_cons, List.mem_append, List.not_mem_nil, or_false] at among ⊢
    tauto
  constructor
  · exact { tame.healthy with }
  · intro tasks among
    rcases among_cases tasks among with rfl | old
    · simp
    · exact tame.short tasks old
  · intro tasks among
    rcases among_cases tasks among with rfl | old
    · simpa using calm
    · exact tame.calm tasks old
  · exact tame.inbound
  · intro r handle present locked
    obtain ⟨p, holds⟩ := tame.holder r handle present locked
    exact ⟨p, List.mem_append_left _ holds⟩
  · intro r handle present
    rcases tame.served r handle present with held | queued | sending | ⟨openMeta, opening⟩
    · exact Or.inl held
    · exact Or.inr (Or.inl queued)
    · exact Or.inr (Or.inr (Or.inl sending))
    · exact Or.inr (Or.inr (Or.inr ⟨openMeta, List.mem_append_left _ opening⟩))

/-- A stream changes in no way that matters here. -/
theorem Tame.setHandle {r : Ref} {handle now : Handle} (tame : Tame e)
    (present : e.heap r = some handle) (working : Working now.stream)
    (smu : now.stream.smu = handle.stream.smu) (held : handle.held = true → now.held = true) :
    Tame (e.setHandle r now) := by
  have old (other : Ref) (found : Handle) (is : (e.setHandle r now).heap other = some found) :
      ∃ before, e.heap other = some before ∧ Working found.stream ∧
        found.stream.smu = before.stream.smu ∧ (before.held = true → found.held = true) := by
    by_cases own : other = r
    · subst own
      simp only [Endpoint.setHandle, Function.update_self, Option.some.injEq] at is
      subst is
      exact ⟨handle, present, working, smu, held⟩
    · simp only [Endpoint.setHandle, Function.update_of_ne own] at is
      exact ⟨found, is, tame.healthy.working other found is, rfl, id⟩
  constructor
  · refine { tame.healthy with working := ?_ }
    intro other found is
    obtain ⟨-, -, working, -⟩ := old other found is
    exact working
  · exact tame.short
  · exact tame.calm
  · exact tame.inbound
  · intro other found is locked
    obtain ⟨before, was, -, same, -⟩ := old other found is
    exact tame.holder other before was (same ▸ locked)
  · intro other found is
    obtain ⟨before, was, -, -, held⟩ := old other found is
    exact (tame.served other before was).imp_left held

/-! ### The moves of a session -/

/-- A new stream starts in order, and a goroutine or the read loop knows of it. -/
theorem Tame.create (tame : Tame e) (id : UInt32) (openMeta : Bytes) :
    Healthy (e.create id openMeta) ∧
      ∀ r handle, (e.create id openMeta).heap r = some handle →
        e.heap r = some handle ∨ r = { id, gen := e.gens id } ∧ handle.stream.smu = false := by
  have cases (r : Ref) (handle : Handle) (present : (e.create id openMeta).heap r = some handle) :
      e.heap r = some handle ∨ r = { id, gen := e.gens id } ∧ handle.stream.smu = false ∧
        Working handle.stream := by
    by_cases new : r = { id, gen := e.gens id }
    · subst new
      simp only [Endpoint.create, Function.update_self, Option.some.injEq] at present
      subst present
      exact Or.inr ⟨rfl, rfl, ⟨rfl, rfl, rfl, rfl⟩⟩
    · simp only [Endpoint.create, Function.update_of_ne new] at present
      exact Or.inl present
  constructor
  · refine { tame.healthy with working := ?_ }
    intro r handle present
    rcases cases r handle present with old | ⟨-, -, working⟩
    · exact tame.healthy.working r handle old
    · exact working
  · intro r handle present
    exact (cases r handle present).imp_right fun new => ⟨new.1, new.2.1⟩

theorem Tame.openStream {e : Endpoint} (tame : Tame e) (openMeta : Bytes) (nextID : UInt32)
    (opened : Nat) :
    Tame
      { e.create e.session.nextID openMeta with
        session := { (e.create e.session.nextID openMeta).session with nextID }
        opened
        threads :=
          e.threads ++
            [[.openFrame { id := e.session.nextID, gen := e.gens e.session.nextID }
              openMeta]] } := by
  obtain ⟨healthy, stems⟩ := tame.create e.session.nextID openMeta
  have among_cases (tasks : List Task) (task : Task)
      (among : tasks ∈ e.loop :: (e.threads ++ [[task]])) :
      tasks = [task] ∨ tasks ∈ e.loop :: e.threads := by
    simp only [List.mem_cons, List.mem_append, List.not_mem_nil, or_false] at among ⊢
    tauto
  constructor
  · exact { healthy with }
  · intro tasks among
    rcases among_cases tasks _ among with rfl | old
    · simp
    · exact tame.short tasks old
  · intro tasks among
    rcases among_cases tasks _ among with rfl | old
    · simp [Task.Calm]
    · exact tame.calm tasks old
  · exact tame.inbound
  · intro r handle present locked
    rcases stems r handle present with old | ⟨-, free⟩
    · obtain ⟨p, holds⟩ := tame.holder r handle old locked
      exact ⟨p, List.mem_append_left _ holds⟩
    · simp [free] at locked
  · intro r handle present
    rcases stems r handle present with old | ⟨rfl, -⟩
    · rcases tame.served r handle old with held | queued | sending | ⟨openMeta, opening⟩
      · exact Or.inl held
      · exact Or.inr (Or.inl queued)
      · exact Or.inr (Or.inr (Or.inl sending))
      · exact Or.inr (Or.inr (Or.inr ⟨openMeta, List.mem_append_left _ opening⟩))
    · exact Or.inr (Or.inr (Or.inr ⟨openMeta, by simp⟩))

/-- Unless a RESET comes in, the read loop has one calm task to do. -/
theorem Tame.startLoop {e : Endpoint} {task : Task} (tame : Tame e) (idle : e.loop = [])
    (calm : task.Calm) (inbound : task.Inbound) : Tame { e with loop := [task] } := by
  constructor
  · exact { tame.healthy with }
  · intro tasks among
    rcases List.mem_cons.mp among with rfl | old
    · simp
    · exact tame.short tasks (List.mem_cons_of_mem _ old)
  · intro tasks among
    rcases List.mem_cons.mp among with rfl | old
    · simpa using calm
    · exact tame.calm tasks (List.mem_cons_of_mem _ old)
  · simpa using inbound
  · exact tame.holder
  · intro r handle present
    have served := tame.served r handle present
    rw [idle] at served
    rcases served with held | queued | none | opening
    · exact Or.inl held
    · exact Or.inr (Or.inl queued)
    · cases none
    · exact Or.inr (Or.inr (Or.inr opening))

/-- An OPEN comes in: the read loop hands the new stream to `Accept`. -/
theorem Tame.accepts (tame : Tame e) (idle : e.loop = []) (id : UInt32) (openMeta : Bytes) :
    Tame { e.create id openMeta with loop := [.acceptSend { id, gen := e.gens id }] } := by
  obtain ⟨healthy, stems⟩ := tame.create id openMeta
  constructor
  · exact { healthy with }
  · intro tasks among
    rcases List.mem_cons.mp among with rfl | old
    · simp
    · exact tame.short tasks (List.mem_cons_of_mem _ old)
  · intro tasks among
    rcases List.mem_cons.mp among with rfl | old
    · simp [Task.Calm]
    · exact tame.calm tasks (List.mem_cons_of_mem _ old)
  · simp [Task.Inbound]
  · intro r handle present locked
    rcases stems r handle present with old | ⟨-, free⟩
    · exact tame.holder r handle old locked
    · simp [free] at locked
  · intro r handle present
    rcases stems r handle present with old | ⟨rfl, -⟩
    · have served := tame.served r handle old
      rw [idle] at served
      rcases served with held | queued | none | opening
      · exact Or.inl held
      · exact Or.inr (Or.inl queued)
      · cases none
      · exact Or.inr (Or.inr (Or.inr opening))
    · exact Or.inr (Or.inr (Or.inl rfl))

theorem Tame.receive {after : Endpoint} {message : Bytes} (tame : Tame e)
    (gentle : ∀ frame, decodeFrame message = some frame → frame.type ≠ .fReset)
    (arrived : e.receive message = some after) : Tame after := by
  simp only [Endpoint.receive] at arrived
  split at arrived
  next ready =>
    cases decoded : decodeFrame message with
    | none =>
      simp only [decoded, Option.some.injEq] at arrived
      exact arrived ▸ tame
    | some frame =>
      have idle := ready.1
      have notReset := gentle frame decoded
      simp only [decoded, Option.some.injEq] at arrived
      subst arrived
      have forward (op : StreamOp) (calm : op.Calm)
          (inbound : ∀ r, (Task.onStream r op).Inbound) :
          Tame (e.forward frame.streamID op) := by
        unfold Endpoint.forward
        split
        · exact tame.startLoop idle calm (inbound _)
        · exact tame
      unfold Endpoint.dispatch
      dsimp only
      split
      · exact tame.startLoop idle ⟨by simp, by simp⟩ rfl
      · exact tame
      · exact tame.accepts idle frame.streamID frame.payload
      · exact forward _ trivial fun _ => trivial
      · exact forward _ trivial fun _ => trivial
      next reset => exact absurd reset notReset
      · exact forward _ trivial fun _ => trivial
      · exact forward _ trivial fun _ => trivial
      · exact tame
  · cases arrived

/-- The application takes a stream from `Accept`. -/
theorem Tame.accept {e : Endpoint} {r : Ref} {rest : List Ref} {handle : Handle} (tame : Tame e)
    (queue : e.session.accept = r :: rest) (present : e.heap r = some handle) :
    Tame
      { e.setHandle r { handle with held := true } with
        session := { e.session with accept := rest } } := by
  have handed : Tame (e.setHandle r { handle with held := true }) :=
    tame.setHandle present (tame.healthy.working r handle present) rfl fun _ => rfl
  refine { handed with healthy := { handed.healthy with }, served := ?_ }
  intro other found is
  by_cases own : other = r
  · subst own
    simp only [Endpoint.setHandle, Function.update_self, Option.some.injEq] at is
    exact Or.inl (is ▸ rfl)
  · rcases handed.served other found is with held | queued | sending | opening
    · exact Or.inl held
    · have among : other ∈ e.session.accept := queued
      rw [queue] at among
      exact Or.inr (Or.inl ((List.mem_cons.mp among).resolve_left own))
    · exact Or.inr (Or.inr (Or.inl sending))
    · exact Or.inr (Or.inr (Or.inr opening))

theorem Tame.read {e : Endpoint} {r : Ref} {handle : Handle} {n : Nat} {step : ReadStep}
    (tame : Tame e) (present : e.heap r = some handle)
    (ran : handle.stream.read e.session.creditThreshold n = some step) :
    Tame
      (e.setHandle r
        { handle with
          stream := step.stream
          returned := handle.returned ++ step.result.data }) := by
  have working := tame.healthy.working r handle present
  apply tame.setHandle present
  · cases GoStream.read_cases ran <;>
      exact ⟨working.closeOnce, working.rerr, working.serr, working.signals⟩
  · cases GoStream.read_cases ran <;> rfl
  · exact id

theorem Tame.act {after : Endpoint} {a : Act} {out : List Bytes} (tame : Tame e)
    (calm : a.Calm) (acted : e.act a = some (after, out)) :
    Tame after ∧ ∀ frame ∈ frames out, frame.type ≠ .fReset := by
  cases Endpoint.acted_of_act acted with
  | openStream => exact ⟨tame.openStream _ _ _, by simp⟩
  | accept offered present => exact ⟨tame.accept offered present, by simp⟩
  | @call a r tasks calls =>
    have calmly : ∃ task, tasks = [task] ∧ task.Calm := by
      cases a <;> cases calls
      all_goals
        first
        | exact absurd calm id
        | exact ⟨_, rfl, trivial⟩
        | exact ⟨_, rfl, by simp, by simp⟩
    obtain ⟨task, rfl, calmly⟩ := calmly
    exact ⟨tame.spawn calmly, by simp⟩
  | read _ present ran => exact ⟨tame.read present ran, by simp⟩
  | readGrant _ present ran => exact ⟨(tame.read present ran).spawn ⟨by simp, by simp⟩, by simp⟩
  | closeSession => exact absurd calm id
  | ping => exact ⟨tame.spawn ⟨by simp, by simp⟩, by simp⟩
  | readError => exact absurd calm id
  | @step k task rest move found ran =>
    have isIn := List.mem_of_getElem? found
    have gentle := Endpoint.exec_gentle tame.healthy
      (tame.calm _ (List.mem_cons_of_mem _ isIn) task (by simp)) ran
    exact ⟨tame.thread found gentle, gentle.sent⟩
  | @stepLoop task rest move found ran =>
    have gentle := Endpoint.exec_gentle tame.healthy
      (tame.calm _ List.mem_cons_self task (by simp [found])) ran
    exact ⟨tame.stepLoop found gentle, gentle.sent⟩

/-- A session that nobody closes stays so as long as no RESET comes in, and sends none. -/
theorem tame_contract {Meets : Endpoint → Act → Prop} (calm : ∀ {e a}, Meets e a → a.Calm) :
    Contract (goPartyWhen Meets)
      (fun e sent _ => Tame e ∧ ∀ frame ∈ frames sent, frame.type ≠ .fReset)
      (fun _ received => ∀ frame ∈ frames received, frame.type ≠ .fReset) where
  act := by
    rintro before after sent received out ⟨tame, gentle⟩ - ⟨a, meets, acted⟩
    obtain ⟨still, quiet⟩ := tame.act (calm meets) acted
    refine ⟨still, ?_⟩
    rw [frames_append]
    exact List.forall_mem_append.mpr ⟨gentle, quiet⟩
  receive := by
    rintro before after sent received out message ⟨tame, gentle⟩ heard moved
    obtain ⟨next, arrived, ⟨⟩⟩ := Option.map_eq_some_iff.mp moved
    refine ⟨tame.receive (fun frame decoded => ?_) arrived, by simpa using gentle⟩
    exact heard frame (by simp [frames, List.filterMap_append, decoded])

/-- In a run in which nobody closes or resets anything, both sessions stay open. -/
theorem tame_run {Meets : Endpoint → Act → Prop} (calm : ∀ {e a}, Meets e a → a.Calm)
    {capacity : Option Nat} {leftCfg rightCfg : Config} {state : State Endpoint Endpoint Bytes}
    {past : Histories Bytes}
    (run : Run (goPartyWhen Meets) (goPartyWhen Meets) capacity (newEndpoint leftCfg)
      (newEndpoint rightCfg) state past) : Tame state.left ∧ Tame state.right := by
  have contract : Contract (goPartyWhen Meets)
      (fun e sent _ => Tame e ∧ ∀ frame ∈ frames sent, frame.type ≠ .fReset)
      (Rely fun e sent _ => Tame e ∧ ∀ frame ∈ frames sent, frame.type ≠ .fReset) := by
    refine (tame_contract calm).mono fun rely frame heard => ?_
    obtain ⟨_, _, _, ⟨-, gentle⟩, -, toUs⟩ := rely
    exact gentle frame ((frames_mono toUs).subset heard)
  obtain ⟨left, right⟩ := Run.invariant ⟨tame_start leftCfg, by simp⟩
    ⟨tame_start rightCfg, by simp⟩ contract contract run
  exact ⟨left.1, right.1⟩

end HelixKit.Stream
