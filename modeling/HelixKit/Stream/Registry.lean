/-
Purpose: The map from ids to streams of a Go session, and when a registered stream stays what its id
  maps to.
Trusted boundary: none
-/
import HelixKit.Lib.Runs
import HelixKit.Stream.Naming

namespace HelixKit.Stream

open HelixKit.Runs

/-! ### Events -/

/-- What can happen at one end of a connection, whatever the other end does. -/
inductive GoEvent where
  | act (a : Act)
  | receive (message : Bytes)
deriving DecidableEq, Repr

/-- An endpoint, with the stream that each goroutine and the read loop work for:
the stream of an `Open`, a `Close` or a `Reset`, and the stream that the last
frame was for. -/
structure Owned where
  endpoint : Endpoint
  callers : List (Option Ref) := []
  reader : Option Ref := none

/-- The stream that the goroutine of a call may remove. -/
def Endpoint.caller (e : Endpoint) : Act → Option Ref
  | .openStream _ => some { id := e.session.nextID, gen := e.gens e.session.nextID }
  | .close r => some r
  | .reset r _ => some r
  | _ => none

def goStep (o : Owned) : GoEvent → Owned
  | .act a =>
    match o.endpoint.act a with
    | none => o
    | some (after, _) =>
      let started := after.threads.length - o.endpoint.threads.length
      { o with
        endpoint := after
        callers := o.callers ++ List.replicate started (o.endpoint.caller a) }
  | .receive message =>
    match o.endpoint.receive message with
    | none => o
    | some after =>
      { o with
        endpoint := after
        reader :=
          (decodeFrame message).bind fun frame =>
            o.endpoint.session.streams.lookup frame.streamID }

/-- Whether a task removes the stream `id`, or does so when it fails. -/
def Task.removes (id : UInt32) : Task → Prop
  | .removeStream other => other = id
  | .openFrame r _ => r.id = id
  | _ => False

/-- No stream but `r` is registered under the id of `r`. -/
def Endpoint.Vacates (e : Endpoint) (r : Ref) : Prop :=
  ∀ other, e.session.streams.lookup r.id = some other → other = r

/-- No stream is registered under `id`, and no goroutine is about to remove
one. -/
def Endpoint.Unused (e : Endpoint) (id : UInt32) : Prop :=
  e.session.streams.lookup id = none ∧ ∀ task ∈ e.tasks, ¬ task.removes id

/-- An OPEN or a local open finds its id unused, and a `Close` or a `Reset` is
called while no other stream has the id. -/
def GoFresh (o : Owned) : GoEvent → Prop
  | .act (.openStream _) =>
    o.endpoint.session.closed = false → o.endpoint.Unused o.endpoint.session.nextID
  | .act (.close r) => o.endpoint.holds r = true → o.endpoint.Vacates r
  | .act (.reset r _) => o.endpoint.holds r = true → o.endpoint.Vacates r
  | .receive message =>
    ∀ frame, decodeFrame message = some frame → frame.type = .fOpen →
      o.endpoint.Unused frame.streamID
  | _ => True

/-- The step removes `r` from the map in its own right: it ends a `Close`, a
`Reset` or a failed `Open` of `r` or the handling of a RESET for `r`, or it
closes the session. -/
inductive GoRemoves (o : Owned) (id : UInt32) (r : Ref) : GoEvent → Prop where
  | call (n : Nat) (rest : List Task)
      (next : o.endpoint.threads[n]? = some (.removeStream id :: rest))
      (caller : o.callers[n]? = some (some r)) : GoRemoves o id r (.act (.step n))
  | reset (rest : List Task) (next : o.endpoint.loop = .removeStream id :: rest)
      (reader : o.reader = some r) : GoRemoves o id r (.act .stepLoop)
  | closed (event : GoEvent) (opened : o.endpoint.session.closed = false)
      (closed : (goStep o event).endpoint.session.closed = true) : GoRemoves o id r event

/-- A registered stream is still what its id maps to after the step, unless the
step removes it. -/
def GoKeeps (o : Owned) (event : GoEvent) : Prop :=
  ∀ id r, o.endpoint.session.streams.lookup id = some r →
    (goStep o event).endpoint.session.streams.lookup id = some r ∨ GoRemoves o id r event

/-! ### What one step does to the map -/

/-- What running one task does to the map, and what may be left to remove. -/
structure Move.Registers (e : Endpoint) (task : Task) (move : Move) : Prop where
  threads : move.after.threads = e.threads
  loop : move.after.loop = e.loop
  continues : ∀ next ∈ move.continues, ∀ id, next.removes id → task.removes id
  streams :
    move.after.session.streams = e.session.streams ∨
      (∃ id, task = .removeStream id ∧
        move.after.session.streams = e.session.streams.erase id) ∨
      e.session.closed = false ∧ move.after.session.closed = true ∧
        move.after.session.streams = ∅

variable {e : Endpoint} {task : Task}

theorem Endpoint.exec_registers {move : Move}
    (ran : e.exec task = some move) : move.Registers e task := by
  cases task with
  | writeFrame type id payload | closeTransport =>
    cases ran
    exact ⟨rfl, rfl, by simp, Or.inl rfl⟩
  | openFrame r openMeta =>
    simp only [Endpoint.exec] at ran
    split at ran
    · cases ran
      exact ⟨rfl, rfl, by simp [Task.removes], Or.inl rfl⟩
    · obtain ⟨handle, -, rfl⟩ := Option.map_eq_some_iff.mp ran
      exact ⟨rfl, rfl, by simp, Or.inl rfl⟩
  | onStream r op =>
    obtain ⟨handle, -, ran⟩ := Option.bind_eq_some_iff.mp ran
    obtain ⟨effect, -, rfl⟩ := Option.map_eq_some_iff.mp ran
    refine ⟨rfl, rfl, ?_, Or.inl rfl⟩
    intro next member id removes
    rcases List.mem_append.mp member with onStream | ends
    · obtain ⟨op', -, rfl⟩ := List.mem_map.mp onStream
      exact removes.elim
    · split at ends
      · rw [List.mem_singleton.mp ends] at removes
        exact removes.elim
      · simp at ends
  | removeStream id =>
    cases ran
    exact ⟨rfl, rfl, by simp, Or.inr (Or.inl ⟨id, rfl, rfl⟩)⟩
  | acceptSend r =>
    simp only [Endpoint.exec] at ran
    split at ran
    · cases ran
      exact ⟨rfl, rfl, by simp, Or.inl rfl⟩
    split at ran
    · cases ran
      exact ⟨rfl, rfl, by simp, Or.inl rfl⟩
    · cases ran
  | closeWithErr err =>
    simp only [Endpoint.exec] at ran
    split at ran
    · cases ran
      exact ⟨rfl, rfl, by simp, Or.inl rfl⟩
    next opened =>
      cases ran
      refine ⟨rfl, rfl, ?_, Or.inr (Or.inr ⟨by simpa using opened, rfl, rfl⟩)⟩
      intro next member id removes
      rcases List.mem_append.mp member with teardown | close
      · obtain ⟨entry, -, rfl⟩ := List.mem_map.mp teardown
        exact removes.elim
      · rw [List.mem_singleton.mp close] at removes
        exact removes.elim

/-- What a call, a timer or a goroutine going on does to the map. -/
inductive ActRegisters (e : Endpoint) (a : Act) (after : Endpoint) : Prop where
  | opened (openMeta : Bytes) (call : a = .openStream openMeta)
      (live : e.session.closed = false)
      (streams :
        after.session.streams =
          e.session.streams.insert e.session.nextID
            { id := e.session.nextID, gen := e.gens e.session.nextID })
      (threads :
        after.threads =
          e.threads ++
            [[.openFrame { id := e.session.nextID, gen := e.gens e.session.nextID } openMeta]])
      (loop : after.loop = e.loop)
  | spawned (tasks : List Task) (streams : after.session.streams = e.session.streams)
      (threads : after.threads = e.threads ++ [tasks]) (loop : after.loop = e.loop)
      (removes : ∀ task ∈ tasks, ∀ id, task.removes id →
        ∃ r, e.caller a = some r ∧ r.id = id ∧ e.holds r = true ∧
          ((∃ reason, a = .reset r reason) ∨ a = .close r))
  | quiet (streams : after.session.streams = e.session.streams)
      (threads : after.threads = e.threads)
      (loop : ∀ task ∈ after.loop, task ∈ e.loop ∨ ∀ id, ¬ task.removes id)
  | stepped (n : Nat) (call : a = .step n) (task : Task) (rest : List Task) (move : Move)
      (next : e.threads[n]? = some (task :: rest)) (ran : e.exec task = some move)
      (after_ : after = { move.after with threads := e.threads.set n (move.continues ++ rest) })
  | stepLoop (call : a = .stepLoop) (task : Task) (rest : List Task) (move : Move)
      (next : e.loop = task :: rest) (ran : e.exec task = some move)
      (after_ : after = { move.after with loop := move.continues ++ rest })

theorem Endpoint.act_registers {after : Endpoint} {a : Act} {out : List Bytes}
    (acted : e.act a = some (after, out)) : ActRegisters e a after := by
  cases Endpoint.acted_of_act acted with
  | @openStream openMeta alive => exact .opened openMeta rfl alive rfl rfl rfl
  | accept | read => exact .quiet rfl rfl fun task member => Or.inl member
  | @call a r tasks calls holds =>
    have removes : ∀ task ∈ tasks, ∀ id, task.removes id →
        e.caller a = some r ∧ r.id = id ∧ ((∃ reason, a = .reset r reason) ∨ a = .close r) := by
      cases a <;> cases calls <;> simp [Task.removes, Endpoint.caller]
    refine .spawned tasks rfl rfl rfl fun task member id removing => ?_
    obtain ⟨caller, same, call⟩ := removes task member id removing
    exact ⟨r, caller, same, holds, call⟩
  | readGrant | closeSession | ping => exact .spawned _ rfl rfl rfl (by simp [Task.removes])
  | readError => exact .quiet rfl rfl (by simp [Task.removes])
  | step found ran => exact .stepped _ rfl _ _ _ found ran rfl
  | stepLoop found ran => exact .stepLoop rfl _ _ _ found ran rfl

/-- What the dispatch of a frame does to the map. -/
inductive DispatchRegisters (e : Endpoint) (frame : Frame) (after : Endpoint) : Prop where
  | opened (isOpen : frame.type = .fOpen)
      (streams :
        after.session.streams =
          e.session.streams.insert frame.streamID
            { id := frame.streamID, gen := e.gens frame.streamID })
      (loop : ∀ task ∈ after.loop, ∀ id, ¬ task.removes id)
  | reset (r : Ref) (found : e.session.streams.lookup frame.streamID = some r)
      (streams : after.session.streams = e.session.streams)
      (loop : ∀ task ∈ after.loop, ∀ id, task.removes id → id = frame.streamID)
  | quiet (streams : after.session.streams = e.session.streams)
      (loop : ∀ task ∈ after.loop, ∀ id, ¬ task.removes id)

theorem Endpoint.dispatch_registers (e : Endpoint) (frame : Frame) (idle : e.loop = []) :
    DispatchRegisters e frame (e.dispatch frame) ∧ (e.dispatch frame).threads = e.threads := by
  have forward (op : StreamOp) :
      let after := e.forward frame.streamID op
      DispatchRegisters e frame after ∧ after.threads = e.threads := by
    unfold Endpoint.forward
    cases e.session.streams.lookup frame.streamID with
    | none => exact ⟨.quiet rfl (by simp [idle]), rfl⟩
    | some r => exact ⟨.quiet rfl (by simp [Task.removes]), rfl⟩
  obtain ⟨type, id, payload⟩ := frame
  cases type with
  | fPing => exact ⟨.quiet rfl (by simp [Endpoint.dispatch, Task.removes]), rfl⟩
  | fPong | unknown => exact ⟨.quiet rfl (by simp [Endpoint.dispatch, idle]), rfl⟩
  | fOpen => exact ⟨.opened rfl rfl (by simp [Endpoint.dispatch, Task.removes]), rfl⟩
  | fData | fEnd | fSignal | fCredit => exact forward _
  | fReset =>
    simp only [Endpoint.dispatch]
    cases found : e.session.streams.lookup id with
    | none => exact ⟨.quiet rfl (by simp [idle]), rfl⟩
    | some r =>
      refine ⟨.reset r found rfl ?_, rfl⟩
      simp [Task.removes]

/-! ### What holds in every state -/

/-- Streams are registered under their own ids, and a goroutine that may remove
an id works for the only stream that can be registered under it. -/
structure RegistryInv (o : Owned) : Prop where
  named : ∀ id r, o.endpoint.session.streams.lookup id = some r → r.id = id
  callers : o.callers.length = o.endpoint.threads.length
  threads : ∀ (n : Nat) (tasks : List Task), o.endpoint.threads[n]? = some tasks →
    ∀ task ∈ tasks, ∀ id, task.removes id →
      ∃ r, o.callers[n]? = some (some r) ∧ r.id = id ∧ o.endpoint.Vacates r
  loop : ∀ task ∈ o.endpoint.loop, ∀ id, task.removes id →
    ∃ r, o.reader = some r ∧ r.id = id ∧ o.endpoint.Vacates r

theorem registryInv_start (cfg : Config) : RegistryInv { endpoint := newEndpoint cfg } where
  named := by simp [newEndpoint, newSession]
  callers := rfl
  threads := by simp [newEndpoint]
  loop := by simp [newEndpoint]

/-- The map after a step: as before, with one stream less or with none, or with
one more under an id that nothing else uses. -/
inductive MapStep (e : Endpoint) (after : AList fun _ : UInt32 => Ref) : Prop where
  | fewer (less : ∀ id r, after.lookup id = some r → e.session.streams.lookup id = some r)
  | more (r : Ref) (unused : e.Unused r.id) (streams : after = e.session.streams.insert r.id r)

theorem MapStep.named {e : Endpoint} {after : AList fun _ : UInt32 => Ref}
    (registers : MapStep e after)
    (named : ∀ id r, e.session.streams.lookup id = some r → r.id = id) :
    ∀ id r, after.lookup id = some r → r.id = id := by
  intro id r found
  cases registers with
  | fewer less => exact named id r (less id r found)
  | more new unused streams =>
    rw [streams] at found
    by_cases same : id = new.id
    · subst same
      rw [AList.lookup_insert] at found
      exact congrArg Ref.id (Option.some.inj found).symm
    · rw [AList.lookup_insert_ne same] at found
      exact named id r found

/-- A goroutine that may remove an id keeps working for the only stream that can
be registered under it. -/
theorem MapStep.vacates {e after : Endpoint} {r : Ref} {task : Task}
    (registers : MapStep e after.session.streams) (vacates : e.Vacates r)
    (pending : task ∈ e.tasks) (removes : task.removes r.id) : after.Vacates r := by
  intro other found
  cases registers with
  | fewer less => exact vacates other (less _ _ found)
  | more new unused streams =>
    rw [streams] at found
    by_cases same : r.id = new.id
    · exact absurd (same ▸ removes) (unused.2 task pending)
    · rw [AList.lookup_insert_ne same] at found
      exact vacates other found

theorem Move.Registers.mapStep {move : Move}
    (effect : move.Registers e task) : MapStep e move.after.session.streams := by
  apply MapStep.fewer
  intro id r found
  rcases effect.streams with same | ⟨other, -, erased⟩ | ⟨-, -, empty⟩
  · rw [same] at found
    exact found
  · rw [erased] at found
    by_cases same : id = other
    · subst same
      simp at found
    · rwa [AList.lookup_erase_ne same] at found
  · rw [empty] at found
    simp at found

theorem Endpoint.mem_tasks_of_thread {n : Nat} {tasks : List Task}
    (found : e.threads[n]? = some tasks) (member : task ∈ tasks) : task ∈ e.tasks :=
  List.mem_append_right _ (List.mem_flatten_of_mem (List.mem_of_getElem? found) member)

variable {o : Owned}

/-- An old goroutine after a step that leaves it alone. -/
theorem RegistryInv.oldThread (inv : RegistryInv o) {after : Endpoint}
    (registers : MapStep o.endpoint after.session.streams) {n : Nat} {tasks : List Task}
    (found : o.endpoint.threads[n]? = some tasks) (member : task ∈ tasks)
    {id : UInt32} (removes : task.removes id) :
    ∃ r, o.callers[n]? = some (some r) ∧ r.id = id ∧ after.Vacates r := by
  obtain ⟨r, caller, rfl, vacates⟩ := inv.threads n tasks found task member id removes
  have pending := Endpoint.mem_tasks_of_thread found member
  exact ⟨r, caller, rfl, registers.vacates vacates pending removes⟩

/-- The read loop's work that is left after a step. -/
theorem RegistryInv.oldLoop (inv : RegistryInv o) {after : Endpoint}
    (registers : MapStep o.endpoint after.session.streams)
    (member : task ∈ o.endpoint.loop) {id : UInt32} (removes : task.removes id) :
    ∃ r, o.reader = some r ∧ r.id = id ∧ after.Vacates r := by
  obtain ⟨r, reader, rfl, vacates⟩ := inv.loop task member id removes
  have pending : task ∈ o.endpoint.tasks := List.mem_append_left _ member
  exact ⟨r, reader, rfl, registers.vacates vacates pending removes⟩

/-- One more goroutine, whose own removals are accounted for. -/
theorem RegistryInv.spawn (inv : RegistryInv o) {after : Endpoint} {tasks : List Task}
    {caller : Option Ref} (registers : MapStep o.endpoint after.session.streams)
    (threads : after.threads = o.endpoint.threads ++ [tasks])
    (loop : after.loop = o.endpoint.loop)
    (owned : ∀ task ∈ tasks, ∀ id, task.removes id →
      ∃ r, caller = some r ∧ r.id = id ∧ after.Vacates r) :
    RegistryInv { o with
      endpoint := after
      callers :=
        o.callers ++
          List.replicate (after.threads.length - o.endpoint.threads.length) caller } := by
  have one : after.threads.length - o.endpoint.threads.length = 1 := by simp [threads]
  rw [one, List.replicate_one]
  refine ⟨registers.named inv.named, by simp [threads, inv.callers], ?_, ?_⟩
  · intro n found present task member id removes
    rw [threads] at present
    rcases Nat.lt_or_ge n o.endpoint.threads.length with old | new
    · rw [List.getElem?_append_left old] at present
      rw [List.getElem?_append_left (inv.callers ▸ old)]
      exact inv.oldThread registers present member removes
    · rw [List.getElem?_append_right new] at present
      have first : n - o.endpoint.threads.length = 0 := by
        by_contra other
        rw [List.getElem?_eq_none (by simp only [List.length_singleton]; omega)] at present
        cases present
      rw [first] at present
      cases present
      obtain ⟨r, rfl, same, vacates⟩ := owned task member id removes
      refine ⟨r, ?_, same, vacates⟩
      rw [List.getElem?_append_right (inv.callers ▸ new), inv.callers, first]
      rfl
  · intro task member id removes
    rw [loop] at member
    exact inv.oldLoop registers member removes

/-- A goroutine that ran one task. -/
theorem RegistryInv.stepped (inv : RegistryInv o) {n : Nat} {rest : List Task}
    {move : Move} (next : o.endpoint.threads[n]? = some (task :: rest))
    (effect : move.Registers o.endpoint task) :
    RegistryInv { o with
      endpoint :=
        { move.after with threads := o.endpoint.threads.set n (move.continues ++ rest) } } := by
  have registers := effect.mapStep
  refine ⟨registers.named inv.named, by simp [inv.callers], ?_, ?_⟩
  · intro k tasks present other member id removes
    rw [List.getElem?_set] at present
    split at present
    next same =>
      subst same
      split at present
      · cases present
        rcases List.mem_append.mp member with continues | left
        · exact inv.oldThread registers next List.mem_cons_self
            (effect.continues other continues id removes)
        · exact inv.oldThread registers next (List.mem_cons_of_mem _ left) removes
      · cases present
    · exact inv.oldThread registers present member removes
  · intro other member id removes
    rw [effect.loop] at member
    exact inv.oldLoop registers member removes

/-- The read loop ran one task. -/
theorem RegistryInv.steppedLoop (inv : RegistryInv o) {rest : List Task}
    {move : Move} (next : o.endpoint.loop = task :: rest)
    (effect : move.Registers o.endpoint task) :
    RegistryInv { o with
      endpoint := { move.after with loop := move.continues ++ rest } } := by
  have registers := effect.mapStep
  refine ⟨registers.named inv.named, by rw [effect.threads]; exact inv.callers, ?_, ?_⟩
  · intro k tasks present other member id removes
    rw [effect.threads] at present
    exact inv.oldThread registers present member removes
  · intro other member id removes
    rcases List.mem_append.mp member with continues | left
    · exact inv.oldLoop registers (next ▸ List.mem_cons_self)
        (effect.continues other continues id removes)
    · exact inv.oldLoop registers (next ▸ List.mem_cons_of_mem _ left) removes

theorem lookup_insert_unused {r : Ref} (unused : e.Unused r.id) :
    ∀ id other, e.session.streams.lookup id = some other →
      (e.session.streams.insert r.id r).lookup id = some other := by
  intro id other found
  have apart : id ≠ r.id := by
    rintro rfl
    rw [unused.1] at found
    cases found
  rw [AList.lookup_insert_ne apart]
  exact found

theorem goStep_act {a : Act} {after : Endpoint} {out : List Bytes}
    (acted : o.endpoint.act a = some (after, out)) :
    goStep o (.act a) =
      { o with
        endpoint := after
        callers :=
          o.callers ++
            List.replicate (after.threads.length - o.endpoint.threads.length)
              (o.endpoint.caller a) } := by
  simp only [goStep, acted]

/-- A goroutine that removes an id works for the stream registered there. -/
theorem Move.Registers.keeps {move : Move} {event : GoEvent}
    (effect : move.Registers o.endpoint task)
    (same : (goStep o event).endpoint.session = move.after.session)
    (own : ∀ id r, task = .removeStream id → o.endpoint.session.streams.lookup id = some r →
      GoRemoves o id r event) : GoKeeps o event := by
  intro id r found
  rw [same]
  rcases effect.streams with kept | ⟨other, isRemove, erased⟩ | ⟨opened, closed, -⟩
  · exact Or.inl (by rw [kept]; exact found)
  · by_cases apart : id = other
    · subst apart
      exact Or.inr (own id r isRemove found)
    · exact Or.inl (by rw [erased, AList.lookup_erase_ne apart]; exact found)
  · exact Or.inr (.closed event opened (by rw [same]; exact closed))

theorem RegistryInv.act (inv : RegistryInv o) {a : Act} (fresh : GoFresh o (.act a)) :
    RegistryInv (goStep o (.act a)) ∧ GoKeeps o (.act a) := by
  cases acted : o.endpoint.act a with
  | none =>
    have idle : goStep o (.act a) = o := by simp only [goStep, acted]
    refine ⟨by rw [idle]; exact inv, ?_⟩
    intro id r found
    exact Or.inl (by rw [idle]; exact found)
  | some result =>
    obtain ⟨after, out⟩ := result
    have stepped := goStep_act acted
    cases Endpoint.act_registers acted with
    | opened openMeta call live streams threads loop =>
      subst call
      have unused := fresh live
      refine ⟨?_, ?_⟩
      · rw [stepped]
        refine inv.spawn (.more ⟨_, _⟩ unused streams) threads loop ?_
        intro task member id removes
        rw [List.mem_singleton.mp member] at removes
        refine ⟨_, rfl, removes, ?_⟩
        intro other found
        rw [streams, AList.lookup_insert] at found
        exact (Option.some.inj found).symm
      · intro id r found
        left
        rw [stepped, streams]
        exact lookup_insert_unused
          (r := { id := o.endpoint.session.nextID, gen := _ }) unused id r found
    | spawned tasks streams threads loop removes =>
      have registers : MapStep o.endpoint after.session.streams :=
        .fewer fun id r found => streams ▸ found
      refine ⟨?_, ?_⟩
      · rw [stepped]
        refine inv.spawn registers threads loop ?_
        intro task member id removing
        obtain ⟨r, caller, rfl, held, call⟩ := removes task member id removing
        have vacates : o.endpoint.Vacates r := by
          rcases call with ⟨reason, rfl⟩ | rfl <;> exact fresh held
        refine ⟨r, caller, rfl, ?_⟩
        intro other found
        exact vacates other (streams ▸ found)
      · intro id r found
        exact Or.inl (by rw [stepped, streams]; exact found)
    | quiet streams threads loop =>
      have registers : MapStep o.endpoint after.session.streams :=
        .fewer fun id r found => streams ▸ found
      refine ⟨?_, ?_⟩
      · rw [stepped, threads, Nat.sub_self, List.replicate_zero, List.append_nil]
        refine ⟨registers.named inv.named, by rw [threads]; exact inv.callers, ?_, ?_⟩
        · intro n tasks present task member id removes
          rw [threads] at present
          exact inv.oldThread registers present member removes
        · intro task member id removes
          rcases loop task member with old | never
          · exact inv.oldLoop registers old removes
          · exact absurd removes (never id)
      · intro id r found
        exact Or.inl (by rw [stepped, streams]; exact found)
    | stepped n call task rest move next ran after_ =>
      subst call after_
      have effect := Endpoint.exec_registers ran
      refine ⟨?_, ?_⟩
      · rw [stepped]
        simp only [List.length_set, Nat.sub_self, List.replicate_zero, List.append_nil]
        exact inv.stepped next effect
      · refine effect.keeps (by rw [stepped]) ?_
        rintro id r rfl found
        obtain ⟨caller, owner, named, vacates⟩ :=
          inv.threads n _ next _ List.mem_cons_self id rfl
        cases vacates r (named ▸ found)
        exact .call n rest next owner
    | stepLoop call task rest move next ran after_ =>
      subst call after_
      have effect := Endpoint.exec_registers ran
      refine ⟨?_, ?_⟩
      · rw [stepped]
        have started : move.after.threads.length - o.endpoint.threads.length = 0 := by
          rw [effect.threads, Nat.sub_self]
        simp only [started, List.replicate_zero, List.append_nil]
        exact inv.steppedLoop next effect
      · refine effect.keeps (by rw [stepped]) ?_
        rintro id r rfl found
        obtain ⟨caller, owner, named, vacates⟩ :=
          inv.loop (.removeStream id) (next ▸ List.mem_cons_self) id rfl
        cases vacates r (named ▸ found)
        exact .reset rest next owner

/-- The read loop dispatched a frame. -/
theorem RegistryInv.dispatched (inv : RegistryInv o) {frame : Frame} {after : Endpoint}
    (effect : DispatchRegisters o.endpoint frame after)
    (threads : after.threads = o.endpoint.threads)
    (unused : frame.type = .fOpen → o.endpoint.Unused frame.streamID) :
    RegistryInv { o with
      endpoint := after
      reader := o.endpoint.session.streams.lookup frame.streamID } := by
  have others (mapStep : MapStep o.endpoint after.session.streams)
      (loop : ∀ task ∈ after.loop, ∀ id, task.removes id →
        ∃ r, o.endpoint.session.streams.lookup frame.streamID = some r ∧ r.id = id ∧
          after.Vacates r) :
      RegistryInv { o with
        endpoint := after
        reader := o.endpoint.session.streams.lookup frame.streamID } := by
    refine ⟨mapStep.named inv.named, by rw [threads]; exact inv.callers, ?_, loop⟩
    intro n tasks present task member id removes
    rw [threads] at present
    exact inv.oldThread mapStep present member removes
  cases effect with
  | opened isOpen streams loop =>
    apply others (.more ⟨_, _⟩ (unused isOpen) streams)
    intro task member id removes
    exact absurd removes (loop task member id)
  | reset r found streams loop =>
    apply others (.fewer fun id r found => streams ▸ found)
    intro task member id removes
    have same := loop task member id removes
    subst same
    have named := inv.named _ r found
    refine ⟨r, found, named, ?_⟩
    intro other present
    rw [streams, named, found] at present
    exact (Option.some.inj present).symm
  | quiet streams loop =>
    apply others (.fewer fun id r found => streams ▸ found)
    intro task member id removes
    exact absurd removes (loop task member id)

theorem RegistryInv.receive (inv : RegistryInv o) {message : Bytes}
    (fresh : GoFresh o (.receive message)) :
    RegistryInv (goStep o (.receive message)) ∧ GoKeeps o (.receive message) := by
  have idle (same : (goStep o (.receive message)).endpoint = o.endpoint)
      (callers : (goStep o (.receive message)).callers = o.callers)
      (reader : (goStep o (.receive message)).reader = o.reader ∨ o.endpoint.loop = []) :
      RegistryInv (goStep o (.receive message)) ∧ GoKeeps o (.receive message) := by
    refine ⟨⟨by rw [same]; exact inv.named, by rw [same, callers]; exact inv.callers, ?_, ?_⟩, ?_⟩
    · rw [same, callers]
      exact inv.threads
    · rw [same]
      rcases reader with reader | empty
      · rw [reader]
        exact inv.loop
      · rw [empty]
        simp
    · intro id r found
      exact Or.inl (by rw [same]; exact found)
  cases received : o.endpoint.receive message with
  | none =>
    have same : goStep o (.receive message) = o := by simp only [goStep, received]
    exact idle (by rw [same]) (by rw [same]) (Or.inl (by rw [same]))
  | some after =>
    have read := received
    unfold Endpoint.receive at read
    split at read
    next ready =>
      cases decoded : decodeFrame message with
      | none =>
        rw [decoded] at read
        cases read
        exact idle (by simp only [goStep, received]) (by simp only [goStep, received])
          (Or.inr ready.1)
      | some frame =>
        rw [decoded] at read
        cases read
        have stepped : goStep o (.receive message) =
            { o with
              endpoint := o.endpoint.dispatch frame
              reader := o.endpoint.session.streams.lookup frame.streamID } := by
          simp only [goStep, received, decoded, Option.bind_some]
        obtain ⟨effect, threads⟩ := Endpoint.dispatch_registers o.endpoint frame ready.1
        rw [stepped]
        refine ⟨?_, ?_⟩
        · exact inv.dispatched effect threads fun isOpen => fresh frame decoded isOpen
        · intro id r found
          left
          rw [stepped]
          cases effect with
          | opened isOpen streams loop =>
            rw [streams]
            exact lookup_insert_unused
              (r := { id := frame.streamID, gen := _ }) (fresh frame decoded isOpen) id r
              found
          | reset _ _ streams _ => rw [streams]; exact found
          | quiet streams _ => rw [streams]; exact found
    · cases read

theorem RegistryInv.step (inv : RegistryInv o) {event : GoEvent} (fresh : GoFresh o event) :
    RegistryInv (goStep o event) ∧ GoKeeps o event := by
  cases event with
  | act a => exact inv.act fresh
  | receive message => exact inv.receive fresh

end HelixKit.Stream
