/-
Purpose: The `signals` channel of a Go stream.  The read loop looks a stream up
  and then sends on its channel; a teardown in between has closed the channel,
  and the send panics.
Trusted boundary: none
Main exports: signals_open
-/
import HelixKit.Stream.Registry

namespace HelixKit.Stream

open HelixKit.Runs

/-- An event that cannot happen changes nothing. -/
def Endpoint.step (e : Endpoint) : GoEvent → Endpoint
  | .act a => ((e.act a).map Prod.fst).getD e
  | .receive message => (e.receive message).getD e

/-- A teardown has closed the channel of `r`. -/
def Endpoint.SignalsClosed (e : Endpoint) (r : Ref) : Prop :=
  ∃ handle, e.heap r = some handle ∧ handle.stream.signalsClosed = true

/-- The task sends on the channel of `r`. -/
def Task.signals (r : Ref) (task : Task) : Prop :=
  ∃ payload, task = .onStream r (.onSignal payload)

/-- No channel is closed while the read loop is about to send on it, and no
SIGNAL is taken for a registered stream whose channel is closed. -/
def SignalSafe (e : Endpoint) : GoEvent → Prop
  | .act (.step n) =>
    ∀ r rest, e.threads[n]? = some (.onStream r .closeSignals :: rest) →
      ∀ task ∈ e.loop, ¬ task.signals r
  | .receive message =>
    ∀ frame r, decodeFrame message = some frame → frame.type = .fSignal →
      e.session.streams.lookup frame.streamID = some r → ¬ e.SignalsClosed r
  | _ => True

/-! ### What one step does to the channels -/

/-- What a critical section does to the channel of its stream. -/
theorem GoStream.exec_signals {maxChunk : Nat} {transportClosed : Bool} {st : GoStream}
    {op : StreamOp} {effect : StreamEffect}
    (ran : st.exec maxChunk transportClosed op = some effect) :
    (effect.stream.signalsClosed = true → st.signalsClosed = true ∨ op = .closeSignals) ∧
      (effect.panics = true → st.signalsClosed = true ∧ ∃ payload, op = .onSignal payload) ∧
        ∀ next ∈ effect.continues, ∀ payload, next ≠ .onSignal payload := by
  cases op <;> simp only [GoStream.exec] at ran
  case closeSignals => cases ran; simp
  all_goals (repeat' split at ran) <;> cases ran <;> simp_all

/-- Replacing a stream object by one with the same channel closes none. -/
theorem signalsClosed_update {e after : Endpoint} {r : Ref} {handle : Handle} (now : Handle)
    (heap : after.heap = Function.update e.heap r (some now)) (present : e.heap r = some handle)
    (same : now.stream.signalsClosed = handle.stream.signalsClosed) {other : Ref}
    (closed : after.SignalsClosed other) : e.SignalsClosed other := by
  obtain ⟨found, updated, closed⟩ := closed
  rw [heap] at updated
  by_cases own : other = r
  · subst own
    rw [Function.update_self] at updated
    cases updated
    exact ⟨handle, present, same ▸ closed⟩
  · rw [Function.update_of_ne own] at updated
    exact ⟨found, updated, closed⟩

/-- What running one task does to the channels. -/
structure Move.Signals (e : Endpoint) (task : Task) (move : Move) : Prop where
  threads : move.after.threads = e.threads
  loop : move.after.loop = e.loop
  continues : ∀ next ∈ move.continues, ∀ r, ¬ next.signals r
  closes : ∀ r, move.after.SignalsClosed r → e.SignalsClosed r ∨ task = .onStream r .closeSignals
  panics : move.after.panicked = true →
    e.panicked = true ∨ ∃ r, task.signals r ∧ e.SignalsClosed r

theorem Endpoint.exec_signals {e : Endpoint} {task : Task} {move : Move}
    (ran : e.exec task = some move) : move.Signals e task := by
  cases task with
  | writeFrame type id payload | removeStream id | closeTransport =>
    cases ran
    exact ⟨rfl, rfl, by simp, fun _ closed => Or.inl closed, Or.inl⟩
  | openFrame r openMeta =>
    simp only [Endpoint.exec] at ran
    split at ran
    · cases ran
      exact ⟨rfl, rfl, by simp [Task.signals], fun _ closed => Or.inl closed, Or.inl⟩
    · obtain ⟨handle, present, rfl⟩ := Option.map_eq_some_iff.mp ran
      refine ⟨rfl, rfl, by simp, ?_, Or.inl⟩
      intro other closed
      exact Or.inl (signalsClosed_update { handle with held := true } rfl present rfl closed)
  | onStream r op =>
    obtain ⟨handle, present, ran⟩ := Option.bind_eq_some_iff.mp ran
    obtain ⟨effect, executed, rfl⟩ := Option.map_eq_some_iff.mp ran
    obtain ⟨closes, panics, continues⟩ := GoStream.exec_signals executed
    refine ⟨rfl, rfl, ?_, ?_, ?_⟩
    · rintro next member other ⟨payload, rfl⟩
      rcases List.mem_append.mp member with onStream | ends
      · obtain ⟨op', inside, same⟩ := List.mem_map.mp onStream
        cases same
        exact continues _ inside payload rfl
      · split at ends <;> simp at ends
    · rintro other ⟨found, same, closed⟩
      by_cases own : other = r
      · subst own
        simp only [Endpoint.setHandle, Function.update_self] at same
        cases same
        rcases closes closed with before | isClose
        · exact Or.inl ⟨handle, present, before⟩
        · exact Or.inr (isClose ▸ rfl)
      · simp only [Endpoint.setHandle, Function.update_of_ne own] at same
        exact Or.inl ⟨found, same, closed⟩
    · intro panicked
      rcases (Bool.or_eq_true _ _).mp panicked with before | now
      · exact Or.inl before
      · obtain ⟨closed, payload, rfl⟩ := panics now
        exact Or.inr ⟨r, ⟨payload, rfl⟩, handle, present, closed⟩
  | acceptSend r =>
    simp only [Endpoint.exec] at ran
    split at ran
    · cases ran
      exact ⟨rfl, rfl, by simp, fun _ closed => Or.inl closed, Or.inl⟩
    · split at ran <;> cases ran
      exact ⟨rfl, rfl, by simp, fun _ closed => Or.inl closed, Or.inl⟩
  | closeWithErr err =>
    simp only [Endpoint.exec] at ran
    split at ran <;> cases ran
    · exact ⟨rfl, rfl, by simp, fun _ closed => Or.inl closed, Or.inl⟩
    · refine ⟨rfl, rfl, ?_, fun _ closed => Or.inl closed, Or.inl⟩
      rintro next member other ⟨payload, rfl⟩
      rcases List.mem_append.mp member with teardown | close
      · obtain ⟨entry, -, same⟩ := List.mem_map.mp teardown
        cases same
      · simp at close

/-- A new stream's channel is open. -/
theorem signalsClosed_create {e : Endpoint} {id : UInt32} {openMeta : Bytes} {r : Ref}
    (closed : (e.create id openMeta).SignalsClosed r) : e.SignalsClosed r := by
  obtain ⟨found, heap, closed⟩ := closed
  simp only [Endpoint.create, Function.update_apply] at heap
  split at heap
  · cases heap
    cases closed
  · exact ⟨found, heap, closed⟩

theorem GoStream.read_signals {creditThreshold n : Nat} {st : GoStream} {step : ReadStep}
    (read : st.read creditThreshold n = some step) :
    step.stream.signalsClosed = st.signalsClosed := by
  unfold GoStream.read at read
  dsimp only at read
  repeat' split at read
  all_goals cases read <;> rfl

/-- What a call, a timer or a goroutine going on does to the channels. -/
inductive ActSignals (e : Endpoint) (a : Act) (after : Endpoint) : Prop where
  | calm (closes : ∀ r, after.SignalsClosed r → e.SignalsClosed r)
      (panicked : after.panicked = e.panicked)
      (loop : after.loop = e.loop ∨ ∀ task ∈ after.loop, ∀ r, ¬ task.signals r)
      (threads : ∀ tasks ∈ after.threads, tasks ∈ e.threads ∨ ∀ task ∈ tasks, ∀ r, ¬ task.signals r)
  | stepped (n : Nat) (call : a = .step n) (task : Task) (rest : List Task) (move : Move)
      (next : e.threads[n]? = some (task :: rest)) (ran : e.exec task = some move)
      (after_ : after = { move.after with threads := e.threads.set n (move.continues ++ rest) })
  | stepLoop (call : a = .stepLoop) (task : Task) (rest : List Task) (move : Move)
      (next : e.loop = task :: rest) (ran : e.exec task = some move)
      (after_ : after = { move.after with loop := move.continues ++ rest })

/-- A new goroutine that sends on no channel. -/
theorem ActSignals.spawn {e after : Endpoint} (before : Endpoint) {a : Act} {tasks : List Task}
    (closes : ∀ r, before.SignalsClosed r → e.SignalsClosed r)
    (heap : after.heap = before.heap) (panicked : after.panicked = e.panicked)
    (loop : after.loop = e.loop) (threads : after.threads = e.threads ++ [tasks])
    (silent : ∀ task ∈ tasks, ∀ r, ¬ task.signals r) : ActSignals e a after := by
  refine .calm ?_ panicked (Or.inl loop) ?_
  · rintro r ⟨handle, present, closed⟩
    exact closes r ⟨handle, heap ▸ present, closed⟩
  · intro others member
    rw [threads] at member
    rcases List.mem_append.mp member with old | new
    · exact Or.inl old
    · rw [List.mem_singleton.mp new]
      exact Or.inr silent

theorem Endpoint.act_signals {e after : Endpoint} {a : Act} {out : List Bytes}
    (acted : e.act a = some (after, out)) : ActSignals e a after := by
  cases Endpoint.acted_of_act acted with
  | @openStream openMeta =>
    exact .spawn (e.create e.session.nextID openMeta)
      (fun _ closed => signalsClosed_create closed) rfl rfl rfl rfl (by simp [Task.signals])
  | @accept r rest handle _ present =>
    exact .calm (fun _ closed =>
      signalsClosed_update { handle with held := true } rfl present rfl closed) rfl
      (Or.inl rfl) fun _ member => Or.inl member
  | call calls =>
    exact .spawn e (fun _ closed => closed) rfl rfl rfl rfl
      (by cases a <;> cases calls <;> simp [Task.signals])
  | read _ present ran =>
    exact .calm (fun _ closed =>
      signalsClosed_update _ rfl present (GoStream.read_signals ran) closed) rfl
      (Or.inl rfl) fun _ member => Or.inl member
  | readGrant _ present ran =>
    exact .spawn _ (fun _ closed =>
      signalsClosed_update _ rfl present (GoStream.read_signals ran) closed) rfl rfl rfl rfl
      (by simp [Task.signals])
  | closeSession | ping =>
    exact .spawn e (fun _ closed => closed) rfl rfl rfl rfl (by simp [Task.signals])
  | readError =>
    exact .calm (fun _ closed => closed) rfl (Or.inr (by simp [Task.signals]))
      fun _ member => Or.inl member
  | step found ran => exact .stepped _ rfl _ _ _ found ran rfl
  | stepLoop found ran => exact .stepLoop rfl _ _ _ found ran rfl

/-! ### Runs -/

/-- The process runs, no goroutine but the read loop sends on a channel, and the
channel it is about to send on is open. -/
structure SignalsInv (e : Endpoint) : Prop where
  running : e.panicked = false
  opened : ∀ task ∈ e.loop, ∀ r, task.signals r → ¬ e.SignalsClosed r
  single : ∀ task ∈ e.loop, ∀ r, task.signals r → e.loop = [task]
  threads : ∀ tasks ∈ e.threads, ∀ task ∈ tasks, ∀ r, ¬ task.signals r

theorem signalsInv_start (cfg : Config) : SignalsInv (newEndpoint cfg) := by
  constructor <;> simp [newEndpoint]

theorem Move.Signals.running {e : Endpoint} {task : Task} {move : Move}
    (effect : move.Signals e task) (running : e.panicked = false)
    (safe : ∀ r, task.signals r → ¬ e.SignalsClosed r) : move.after.panicked = false := by
  by_contra panics
  rcases effect.panics (by simpa using panics) with before | ⟨r, signals, closed⟩
  · rw [running] at before
    cases before
  · exact safe r signals closed

theorem SignalsInv.act {e after : Endpoint} {a : Act} {out : List Bytes} (inv : SignalsInv e)
    (acted : e.act a = some (after, out)) (safe : SignalSafe e (.act a)) : SignalsInv after := by
  cases Endpoint.act_signals acted with
  | calm closes panicked loop threads =>
    have spawned : ∀ tasks ∈ after.threads, ∀ task ∈ tasks, ∀ r, ¬ task.signals r := by
      intro tasks member
      rcases threads tasks member with old | silent
      · exact inv.threads tasks old
      · exact silent
    rcases loop with same | silent
    · refine ⟨panicked ▸ inv.running, ?_, same ▸ inv.single, spawned⟩
      intro task member r signals closed
      exact inv.opened task (same ▸ member) r signals (closes r closed)
    · refine ⟨panicked ▸ inv.running, ?_, ?_, spawned⟩
      · intro task member r signals
        exact absurd signals (silent task member r)
      · intro task member r signals
        exact absurd signals (silent task member r)
  | stepped n call task rest move next ran after_ =>
    subst call after_
    have effect := Endpoint.exec_signals ran
    have silent := inv.threads _ (List.mem_of_getElem? next)
    refine ⟨?_, ?_, ?_, ?_⟩
    · exact effect.running inv.running fun r signals =>
        absurd signals (silent task List.mem_cons_self r)
    · intro other member r signals closed
      rw [show _ = e.loop from effect.loop] at member
      rcases effect.closes r closed with before | isClose
      · exact inv.opened other member r signals before
      · subst isClose
        exact safe r rest next other member signals
    · intro other member r signals
      rw [show _ = e.loop from effect.loop] at member ⊢
      exact inv.single other member r signals
    · intro tasks member other inside r
      rcases List.mem_or_eq_of_mem_set member with old | rfl
      · exact inv.threads tasks old other inside r
      · rcases List.mem_append.mp inside with continues | left
        · exact effect.continues other continues r
        · exact silent other (List.mem_cons_of_mem _ left) r
  | stepLoop call task rest move next ran after_ =>
    subst call after_
    have effect := Endpoint.exec_signals ran
    -- A task that signals is alone in the loop, so none is left behind.
    have quiet : ∀ other ∈ move.continues ++ rest, ∀ r, ¬ other.signals r := by
      intro other member r signals
      rcases List.mem_append.mp member with continues | left
      · exact effect.continues other continues r signals
      · have alone := inv.single other (next ▸ List.mem_cons_of_mem _ left) r signals
        rw [next] at alone
        cases alone
        cases left
    refine ⟨?_, ?_, ?_, ?_⟩
    · exact effect.running inv.running fun r signals =>
        inv.opened task (next ▸ List.mem_cons_self) r signals
    · intro other member r signals
      exact absurd signals (quiet other member r)
    · intro other member r signals
      exact absurd signals (quiet other member r)
    · intro tasks member
      rw [show _ = e.threads from effect.threads] at member
      exact inv.threads tasks member

/-- Only a SIGNAL makes the read loop send on a channel, and nothing else is
left to do then. -/
theorem Endpoint.dispatch_signals (e : Endpoint) (frame : Frame) (idle : e.loop = []) :
    (∀ r, (e.dispatch frame).SignalsClosed r → e.SignalsClosed r) ∧
      (e.dispatch frame).panicked = e.panicked ∧ (e.dispatch frame).threads = e.threads ∧
        ∀ task ∈ (e.dispatch frame).loop, ∀ r, task.signals r →
          (e.dispatch frame).loop = [task] ∧ frame.type = .fSignal ∧
            e.session.streams.lookup frame.streamID = some r := by
  obtain ⟨type, id, payload⟩ := frame
  have forward (op : StreamOp) (isSignal : (∃ p, op = .onSignal p) → type = .fSignal) :
      let after := e.forward id op
      (∀ r, after.SignalsClosed r → e.SignalsClosed r) ∧ after.panicked = e.panicked ∧
        after.threads = e.threads ∧
          ∀ task ∈ after.loop, ∀ r, task.signals r →
            after.loop = [task] ∧ type = .fSignal ∧ e.session.streams.lookup id = some r := by
    unfold Endpoint.forward
    cases found : e.session.streams.lookup id with
    | none => exact ⟨fun _ closed => closed, rfl, rfl, by simp [idle]⟩
    | some r =>
      refine ⟨fun _ closed => closed, rfl, rfl, ?_⟩
      rintro task member other ⟨p, rfl⟩
      cases List.mem_singleton.mp member
      exact ⟨rfl, isSignal ⟨p, rfl⟩, rfl⟩
  cases type with
  | fPing =>
    exact ⟨fun _ closed => closed, rfl, rfl, by simp [Endpoint.dispatch, Task.signals]⟩
  | fPong | unknown =>
    exact ⟨fun _ closed => closed, rfl, rfl, by simp [Endpoint.dispatch, idle]⟩
  | fOpen =>
    refine ⟨fun _ closed => signalsClosed_create closed, rfl, rfl, ?_⟩
    simp [Endpoint.dispatch, Task.signals]
  | fData => exact forward (.onData payload) (by simp)
  | fEnd => exact forward .onEnd (by simp)
  | fSignal => exact forward (.onSignal payload) fun _ => rfl
  | fCredit => exact forward (.onCredit (decodeCredit payload)) (by simp)
  | fReset =>
    simp only [Endpoint.dispatch]
    cases e.session.streams.lookup id with
    | none => exact ⟨fun _ closed => closed, rfl, rfl, by simp [idle]⟩
    | some r => exact ⟨fun _ closed => closed, rfl, rfl, by simp [Task.signals]⟩

theorem SignalsInv.receive {e after : Endpoint} {message : Bytes} (inv : SignalsInv e)
    (received : e.receive message = some after) (safe : SignalSafe e (.receive message)) :
    SignalsInv after := by
  unfold Endpoint.receive at received
  split at received
  next ready =>
    cases decoded : decodeFrame message with
    | none =>
      rw [decoded] at received
      cases received
      exact inv
    | some frame =>
      rw [decoded] at received
      cases received
      obtain ⟨closes, panicked, threads, loop⟩ := e.dispatch_signals frame ready.1
      refine ⟨panicked ▸ inv.running, ?_, ?_, threads ▸ inv.threads⟩
      · intro task member r signals closed
        obtain ⟨-, isSignal, found⟩ := loop task member r signals
        exact safe frame r decoded isSignal found (closes r closed)
      · intro task member r signals
        exact (loop task member r signals).1
  · cases received

theorem SignalsInv.step {e : Endpoint} {event : GoEvent} (inv : SignalsInv e)
    (safe : SignalSafe e event) : SignalsInv (e.step event) := by
  unfold Endpoint.step
  cases event with
  | act a =>
    dsimp only
    cases acted : e.act a with
    | none => exact inv
    | some result => exact inv.act acted safe
  | receive message =>
    dsimp only
    cases received : e.receive message with
    | none => exact inv
    | some after => exact inv.receive received safe

/-- In every run in which no channel is closed between the lookup of its stream
for a SIGNAL and the delivery, and no SIGNAL comes for a stream that is torn
down but still registered, no send panics. -/
theorem signals_open {cfg : Config} {events : List GoEvent}
    (safe : Along Endpoint.step SignalSafe (newEndpoint cfg) events) :
    (run Endpoint.step (newEndpoint cfg) events).panicked = false := by
  have inv := safe.invariant SignalsInv (fun _ _ before now => before.step now)
    (signalsInv_start cfg)
  exact inv.running

/-- The peer opens stream 2 and the application accepts it. -/
def accepted : List GoEvent :=
  [.receive (encodeFrame .fOpen 2 []), .act .stepLoop, .act .accept]

/-- A signal that is delivered before the stream is closed. -/
theorem signals_open_one :
    (run Endpoint.step (newEndpoint { client := true })
      (accepted ++
        [.receive (encodeFrame .fSignal 2 [0x58]), .act .stepLoop,
          .act (.close { id := 2 }), .act (.step 0)])).panicked = false := by
  apply signals_open
  refine ⟨?_, trivial, trivial, ?_, trivial, trivial, ?_, trivial⟩
  · intro frame r decoded isSignal
    have same : some frame = some { type := .fOpen, streamID := 2, payload := [] } :=
      decoded.symm.trans (by decide)
    cases same
    cases isSignal
  · rintro frame r decoded - found ⟨handle, present, closed⟩
    have same : some frame = some { type := .fSignal, streamID := 2, payload := [0x58] } :=
      decoded.symm.trans (by decide)
    cases same
    have registered : some r = some { id := 2 } := found.symm.trans (by decide)
    cases registered
    have opened : some handle.stream.signalsClosed = some false :=
      (congrArg (Option.map fun h : Handle => h.stream.signalsClosed) present).symm.trans
        (by decide)
    rw [closed] at opened
    cases opened
  · intro r rest next
    have first : some (Task.onStream r .closeSignals) = some (.onStream { id := 2 } .closeWrite) :=
      (congrArg (fun tasks : Option (List Task) => tasks.bind List.head?) next).symm.trans
        (by decide)
    cases first

/-- A signal for stream 2 is looked up, the application closes the stream, and
the read loop goes on. -/
theorem signals_open_fails :
    (run Endpoint.step (newEndpoint { client := true })
      (accepted ++
        [.receive (encodeFrame .fSignal 2 [0x58]), .act (.close { id := 2 })] ++
        List.replicate 6 (.act (.step 0)) ++ [.act .stepLoop])).panicked = true := by
  decide

end HelixKit.Stream
