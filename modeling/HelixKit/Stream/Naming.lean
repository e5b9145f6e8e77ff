/-
Purpose: Stream ids name streams uniquely, while neither side opens more than 2^31 streams.
Trusted boundary: none
-/
import HelixKit.Stream.GoSession

namespace HelixKit.Stream

open HelixKit.Duplex

/-- The number of streams one side can open before its ids wrap around. -/
def maxOpened : Nat := 2 ^ 31

/-- The ids that a side opens: odd for the client, even for the server. -/
def Own (client : Bool) (id : UInt32) : Prop :=
  id.toNat % 2 = if client then 1 else 0

instance (client : Bool) (id : UInt32) : Decidable (Own client id) := by
  unfold Own; infer_instance

theorem not_own_iff {client : Bool} {id : UInt32} :
    ¬ Own client id ↔ Own (!client) id := by
  cases client <;> simp [Own]

/-- The id of the `k`-th stream a side opens. -/
def localID (client : Bool) (k : Nat) : UInt32 :=
  UInt32.ofNat ((firstID client).toNat + 2 * k)

theorem localID_zero (client : Bool) : localID client 0 = firstID client := by
  simp [localID]

theorem localID_succ (client : Bool) (k : Nat) :
    localID client k + 2 = localID client (k + 1) := by
  apply UInt32.toNat_inj.mp
  simp [localID, Nat.mul_add, Nat.add_assoc]

theorem localID_own (client : Bool) (k : Nat) : Own client (localID client k) := by
  cases client <;> simp [Own, localID, firstID]

/-- Ids do not repeat before the wrap-around. -/
theorem localID_injective {client : Bool} {j k : Nat} (jBound : j < maxOpened)
    (kBound : k < maxOpened) (same : localID client j = localID client k) :
    j = k := by
  have nats := congrArg UInt32.toNat same
  unfold maxOpened at jBound kBound
  cases client <;> simp [localID, firstID] at nats <;> omega

/-- The streams a task refers to. -/
def Task.refs : Task → List Ref
  | .openFrame r _ | .onStream r _ | .acceptSend r => [r]
  | _ => []

/-- Whether a frame opens the stream `id`. -/
def Frame.opens (id : UInt32) (frame : Frame) : Bool :=
  frame.type == .fOpen && frame.streamID == id

/-- Whether a task is an `Open` of the stream `id` that has yet to be sent. -/
def Task.opens (id : UInt32) : Task → Bool
  | .openFrame r _ => r.id == id
  | _ => false

/-- A `writeFrame` outside `Open` writes a frame of a known type, and no OPEN. -/
def Task.Plain : Task → Prop
  | .writeFrame type _ _ => (∀ code, type ≠ .unknown code) ∧ type ≠ .fOpen
  | _ => True

/-- Everything the goroutines of an endpoint have left to do. -/
def Endpoint.tasks (e : Endpoint) : List Task := e.loop ++ e.threads.flatten

/-- Stream objects are named uniquely, and every pointer in use points to one.
The last three fields are what the other end relies on. -/
structure Naming (client : Bool) (e : Endpoint) (sent received : List Frame) :
    Prop where
  next : e.session.nextID = localID client e.opened
  bound : e.opened ≤ maxOpened
  gens_le : ∀ id, e.gens id ≤ 1
  heap_iff : ∀ r, (e.heap r).isSome = true ↔ r.gen < e.gens r.id
  registered : ∀ {id r}, e.session.streams.lookup id = some r →
    r.id = id ∧ (e.heap r).isSome = true
  tasksKnown : ∀ {task}, task ∈ e.tasks → ∀ r ∈ task.refs, (e.heap r).isSome = true
  acceptKnown : ∀ {r}, r ∈ e.session.accept →
    (e.heap r).isSome = true ∧ ¬ Own client r.id
  acceptRemote : ∀ {r}, .acceptSend r ∈ e.tasks → ¬ Own client r.id
  plain : ∀ {task}, task ∈ e.tasks → task.Plain
  openOwn : ∀ {r openMeta}, .openFrame r openMeta ∈ e.tasks → Own client r.id
  ownIDs : ∀ {id}, Own client id → 0 < e.gens id →
    ∃ k < e.opened, id = localID client k
  remoteIDs : ∀ {id}, ¬ Own client id →
    e.gens id ≤ received.countP (Frame.opens id)
  opensSent : ∀ id, sent.countP (Frame.opens id) +
    e.tasks.countP (Task.opens id) ≤ e.gens id
  opensOwn : ∀ {id}, 0 < sent.countP (Frame.opens id) → Own client id

/-- What running one task leaves as it was, and what its goroutine may go on
with. -/
structure Move.Keeps (e : Endpoint) (task : Task) (move : Move) : Prop where
  gens : move.after.gens = e.gens
  opened : move.after.opened = e.opened
  nextID : move.after.session.nextID = e.session.nextID
  loop : move.after.loop = e.loop
  threads : move.after.threads = e.threads
  heap : ∀ r, (move.after.heap r).isSome = (e.heap r).isSome
  registered : ∀ {id r}, move.after.session.streams.lookup id = some r →
    e.session.streams.lookup id = some r
  accept : ∀ {r}, r ∈ move.after.session.accept →
    r ∈ e.session.accept ∨ task = .acceptSend r
  refs : ∀ {next}, next ∈ move.continues → ∀ r ∈ next.refs,
    r ∈ task.refs ∨ ∃ id, e.session.streams.lookup id = some r
  continues : ∀ {next}, next ∈ move.continues → next.Plain ∧
    (∀ r, next ≠ .acceptSend r) ∧ ∀ r openMeta, next ≠ .openFrame r openMeta
  opens : ∀ id, (frames move.out).countP (Frame.opens id) ≤
    [task].countP (Task.opens id)

theorem setHandle_isSome {e : Endpoint} {r : Ref} (present : (e.heap r).isSome = true)
    (handle : Handle) (other : Ref) :
    ((e.setHandle r handle).heap other).isSome = (e.heap other).isSome := by
  by_cases same : other = r
  · subst same
    simp [Endpoint.setHandle, present]
  · simp [Endpoint.setHandle, same]

theorem Endpoint.exec_keeps {e : Endpoint} {task : Task} {move : Move}
    (plain : task.Plain) (ran : e.exec task = some move) : move.Keeps e task := by
  cases task with
  | writeFrame type id payload =>
    simp only [Endpoint.exec, Option.some.injEq] at ran
    subst ran
    constructor <;> try simp
    intro other
    split
    · simp
    · simp [frames_encodeFrame plain.1, Frame.opens, plain.2]
  | openFrame r openMeta =>
    simp only [Endpoint.exec] at ran
    split at ran
    · cases ran
      constructor <;> simp [Task.refs, Task.Plain]
    · obtain ⟨handle, present, rfl⟩ := Option.map_eq_some_iff.mp ran
      constructor <;> try simp [Endpoint.setHandle]
      · exact setHandle_isSome (by simp [present]) _
      · simp [Frame.opens, Task.opens]
  | onStream r op =>
    obtain ⟨handle, present, ran⟩ := Option.bind_eq_some_iff.mp ran
    obtain ⟨effect, -, rfl⟩ := Option.map_eq_some_iff.mp ran
    constructor <;> try simp [Endpoint.setHandle]
    · exact setHandle_isSome (by simp [present]) _
    · rintro next (⟨op', -, rfl⟩ | ⟨-, rfl⟩) other inRefs
      · exact Or.inl inRefs
      · simp [Task.refs] at inRefs
    · rintro next (⟨op', -, rfl⟩ | ⟨-, rfl⟩)
      · simp [Task.Plain]
      · simp [Task.Plain]
    · intro id
      cases effect.data <;> simp [Frame.opens, Task.opens]
  | removeStream id =>
    simp only [Endpoint.exec, Option.some.injEq] at ran
    subst ran
    constructor <;> try simp
    intro other r found
    by_cases same : other = id
    · subst same
      simp at found
    · rwa [AList.lookup_erase_ne same] at found
  | acceptSend r =>
    simp only [Endpoint.exec] at ran
    split at ran
    · cases ran
      constructor <;> try simp
      rintro other (old | rfl)
      · exact Or.inl old
      · exact Or.inr rfl
    split at ran
    · cases ran
      constructor <;> simp +contextual
    · cases ran
  | closeWithErr err =>
    simp only [Endpoint.exec] at ran
    split at ran
    · cases ran
      constructor <;> simp +contextual
    · cases ran
      constructor <;> try simp
      · rintro next (member | rfl) other inRefs
        · obtain ⟨⟨id, r⟩, entry, rfl⟩ := List.mem_map.mp member
          simp only [Task.refs, List.mem_singleton] at inRefs
          subst inRefs
          exact Or.inr ⟨id, AList.mem_lookup_iff.mpr entry⟩
        · simp [Task.refs] at inRefs
      · rintro next (member | rfl)
        · obtain ⟨entry, -, rfl⟩ := List.mem_map.mp member
          simp [Task.Plain]
        · simp [Task.Plain]
  | closeTransport =>
    cases ran
    constructor <;> simp +contextual

/-- Replacing one goroutine's work changes the work of all of them by exactly
that. -/
theorem flatten_set_perm {α : Type*} {threads : List (List α)} {k : Nat}
    {old : List α} (found : threads[k]? = some old) :
    ∃ others, threads.flatten.Perm (old ++ others) ∧
      ∀ new, (threads.set k new).flatten.Perm (new ++ others) := by
  obtain ⟨inside, rfl⟩ := List.getElem?_eq_some_iff.mp found
  have split : threads = threads.take k ++ threads[k] :: threads.drop (k + 1) := by
    simp
  refine ⟨(threads.take k).flatten ++ (threads.drop (k + 1)).flatten, ?_, ?_⟩
  · conv_lhs => rw [split]
    simp only [List.flatten_append, List.flatten_cons]
    exact List.perm_append_comm_assoc ..
  · intro new
    rw [List.set_eq_take_append_cons_drop, if_pos inside]
    simp only [List.flatten_append, List.flatten_cons]
    exact List.perm_append_comm_assoc ..

/-- A task that any move may add: it points to existing streams, opens none and
offers none to `Accept`. -/
def Task.Harmless (e : Endpoint) (task : Task) : Prop :=
  (∀ r ∈ task.refs, (e.heap r).isSome = true) ∧ task.Plain ∧
    (∀ r, task ≠ .acceptSend r) ∧ ∀ r openMeta, task ≠ .openFrame r openMeta

theorem Task.Harmless.not_opens {e : Endpoint} {task : Task}
    (harmless : task.Harmless e) (id : UInt32) : task.opens id = false := by
  cases task with
  | openFrame r openMeta => exact absurd rfl (harmless.2.2.2 r openMeta)
  | _ => rfl

section Moves

variable {client : Bool} {e after : Endpoint} {sent sent' received : List Frame}

/-- A move that creates no stream keeps the names unique. -/
theorem Naming.move (naming : Naming client e sent received)
    (gens : after.gens = e.gens) (opened : after.opened = e.opened)
    (nextID : after.session.nextID = e.session.nextID)
    (heap : ∀ r, (after.heap r).isSome = (e.heap r).isSome)
    (registered : ∀ {id r}, after.session.streams.lookup id = some r →
      e.session.streams.lookup id = some r)
    (accept : ∀ {r}, r ∈ after.session.accept →
      r ∈ e.session.accept ∨ .acceptSend r ∈ e.tasks)
    (tasks : ∀ {task}, task ∈ after.tasks → task ∈ e.tasks ∨ task.Harmless e)
    (opens : ∀ id, sent'.countP (Frame.opens id) + after.tasks.countP (Task.opens id) ≤
      sent.countP (Frame.opens id) + e.tasks.countP (Task.opens id)) :
    Naming client after sent' received where
  next := by rw [nextID, opened, naming.next]
  bound := opened ▸ naming.bound
  gens_le := by rw [gens]; exact naming.gens_le
  heap_iff r := by rw [heap, gens]; exact naming.heap_iff r
  registered found := by
    rw [heap]
    exact naming.registered (registered found)
  tasksKnown member r inRefs := by
    rw [heap]
    rcases tasks member with old | harmless
    · exact naming.tasksKnown old r inRefs
    · exact harmless.1 r inRefs
  acceptKnown member := by
    rw [heap]
    rcases accept member with old | pending
    · exact naming.acceptKnown old
    · exact ⟨naming.tasksKnown pending _ (by simp [Task.refs]),
        naming.acceptRemote pending⟩
  acceptRemote member := by
    rcases tasks member with old | harmless
    · exact naming.acceptRemote old
    · exact absurd rfl (harmless.2.2.1 _)
  plain member := by
    rcases tasks member with old | harmless
    · exact naming.plain old
    · exact harmless.2.1
  openOwn member := by
    rcases tasks member with old | harmless
    · exact naming.openOwn old
    · exact absurd rfl (harmless.2.2.2 _ _)
  ownIDs own present := by
    rw [opened]
    exact naming.ownIDs own (gens ▸ present)
  remoteIDs remote := by rw [gens]; exact naming.remoteIDs remote
  opensSent id := by
    rw [gens]
    exact (opens id).trans (naming.opensSent id)
  opensOwn := by
    intro id sentSome
    rcases Nat.eq_zero_or_pos (sent.countP (Frame.opens id)) with none | some
    · have pending : 0 < e.tasks.countP (Task.opens id) := by
        have := opens id
        omega
      obtain ⟨task, member, isOpen⟩ := List.countP_pos_iff.mp pending
      cases task with
      | openFrame r openMeta =>
        have same : r.id = id := by simpa [Task.opens] using isOpen
        exact same ▸ naming.openOwn member
      | _ => cases isOpen
    · exact naming.opensOwn some

/-- Running one task of one goroutine. -/
theorem Naming.run {task : Task} {move : Move} {others : List Task}
    (naming : Naming client e sent received) (ran : e.exec task = some move)
    (heap : after.heap = move.after.heap) (gens : after.gens = move.after.gens)
    (opened : after.opened = move.after.opened)
    (session : after.session = move.after.session)
    (before : e.tasks.Perm (task :: others))
    (now : after.tasks.Perm (move.continues ++ others)) :
    Naming client after (sent ++ frames move.out) received := by
  have member : task ∈ e.tasks := before.mem_iff.mpr (by simp)
  have keeps := Endpoint.exec_keeps (naming.plain member) ran
  have harmless : ∀ {next}, next ∈ move.continues → next.Harmless e := by
    intro next more
    refine ⟨?_, keeps.continues more⟩
    intro r inRefs
    rcases keeps.refs more r inRefs with same | ⟨id, found⟩
    · exact naming.tasksKnown member r same
    · exact (naming.registered found).2
  apply naming.move
  · rw [gens, keeps.gens]
  · rw [opened, keeps.opened]
  · rw [session, keeps.nextID]
  · intro r
    rw [heap, keeps.heap]
  · intro id r found
    exact keeps.registered (session ▸ found)
  · intro r accepted
    rcases keeps.accept (session ▸ accepted) with old | rfl
    · exact Or.inl old
    · exact Or.inr member
  · intro next present
    rcases List.mem_append.mp (now.mem_iff.mp present) with more | other
    · exact Or.inr (harmless more)
    · exact Or.inl (before.mem_iff.mpr (by simp [other]))
  · intro id
    have noOpens : move.continues.countP (Task.opens id) = 0 :=
      List.countP_eq_zero.mpr fun next more => by
        simp [(harmless more).not_opens id]
    have sentOpens := keeps.opens id
    rw [before.countP_eq, now.countP_eq]
    simp only [List.countP_append, List.countP_cons, List.countP_nil] at sentOpens ⊢
    omega

/-- A goroutine of harmless tasks starts. -/
theorem Naming.spawn {tasks : List Task} (naming : Naming client e sent received)
    (harmless : ∀ task ∈ tasks, task.Harmless e) :
    Naming client (e.spawn tasks) sent received := by
  have all : (e.spawn tasks).tasks = e.tasks ++ tasks := by
    simp [Endpoint.spawn, Endpoint.tasks]
  apply naming.move <;> try simp [Endpoint.spawn]
  · exact fun member => Or.inl member
  · intro task member
    rw [← Endpoint.spawn, all, List.mem_append] at member
    exact member.imp_right (harmless task)
  · intro id
    have noOpens : tasks.countP (Task.opens id) = 0 :=
      List.countP_eq_zero.mpr fun next more => by
        simp [(harmless next more).not_opens id]
    rw [← Endpoint.spawn, all, List.countP_append, noOpens]
    omega

/-- The idle read loop sets to harmless work. -/
theorem Naming.startLoop (naming : Naming client e sent received)
    (idle : e.loop = []) (heap : after.heap = e.heap) (gens : after.gens = e.gens)
    (opened : after.opened = e.opened) (session : after.session = e.session)
    (threads : after.threads = e.threads)
    (harmless : ∀ task ∈ after.loop, task.Harmless e) :
    Naming client after sent received := by
  apply naming.move
  · exact gens
  · exact opened
  · rw [session]
  · simp [heap]
  · simp [session]
  · exact fun member => Or.inl (session ▸ member)
  · intro task member
    rcases List.mem_append.mp member with inLoop | inThread
    · exact Or.inr (harmless task inLoop)
    · exact Or.inl (List.mem_append_right _ (threads ▸ inThread))
  · intro id
    have noOpens : after.loop.countP (Task.opens id) = 0 :=
      List.countP_eq_zero.mpr fun next more => by
        simp [(harmless next more).not_opens id]
    simp [Endpoint.tasks, idle, threads, noOpens]

theorem create_heap (e : Endpoint) (id : UInt32) (openMeta : Bytes) (r : Ref) :
    ((e.create id openMeta).heap r).isSome = true ↔
      (e.heap r).isSome = true ∨ r = { id, gen := e.gens id } := by
  by_cases same : r = { id, gen := e.gens id } <;>
    simp [Endpoint.create, same]

/-- A stream object created under an unused id, by `Open` or by the arrival of
OPEN; `opened`, `nextID` and the tasks are what the two add to it. -/
theorem Naming.create {id : UInt32} (naming : Naming client e sent received)
    (openMeta : Bytes) (task : Task) (unused : e.gens id = 0)
    (heap : after.heap = (e.create id openMeta).heap)
    (gens : after.gens = (e.create id openMeta).gens)
    (streams : after.session.streams = (e.create id openMeta).session.streams)
    (accept : after.session.accept = e.session.accept)
    (tasks : after.tasks.Perm (task :: e.tasks)) (plain : task.Plain)
    (refs : ∀ r ∈ task.refs, r = { id, gen := 0 })
    (remote : (∃ r, task = .acceptSend r) → ¬ Own client id)
    (own : (∃ r openMeta, task = .openFrame r openMeta) → Own client id)
    (next : after.session.nextID = localID client after.opened)
    (bound : after.opened ≤ maxOpened)
    (ownIDs : ∀ {other}, Own client other → 0 < after.gens other →
      ∃ k < after.opened, other = localID client k)
    (remoteIDs : ∀ {other}, ¬ Own client other →
      after.gens other ≤ sent'.countP (Frame.opens other)) :
    Naming client after sent sent' where
  next := next
  bound := bound
  gens_le other := by
    have := naming.gens_le other
    rw [gens]
    simp only [Endpoint.create, Function.update_apply]
    split <;> omega
  heap_iff r := by
    rw [heap, create_heap, gens, naming.heap_iff]
    obtain ⟨other, gen⟩ := r
    by_cases same : other = id
    · subst same
      simp [Endpoint.create, unused]
    · simp [Endpoint.create, same]
  registered := by
    intro other r found
    rw [heap, create_heap]
    rw [streams] at found
    by_cases same : other = id
    · subst same
      simp only [Endpoint.create, AList.lookup_insert, Option.some.injEq] at found
      subst found
      simp
    · simp only [Endpoint.create, AList.lookup_insert_ne same] at found
      obtain ⟨idEq, present⟩ := naming.registered found
      exact ⟨idEq, Or.inl present⟩
  tasksKnown member r inRefs := by
    rw [heap, create_heap]
    rcases List.mem_cons.mp (tasks.mem_iff.mp member) with rfl | old
    · exact Or.inr (unused ▸ refs r inRefs)
    · exact Or.inl (naming.tasksKnown old r inRefs)
  acceptKnown member := by
    rw [heap, create_heap]
    obtain ⟨present, isRemote⟩ := naming.acceptKnown (accept ▸ member)
    exact ⟨Or.inl present, isRemote⟩
  acceptRemote := by
    intro r member
    rcases List.mem_cons.mp (tasks.mem_iff.mp member) with rfl | old
    · have := remote ⟨r, rfl⟩
      rwa [refs r (by simp [Task.refs])]
    · exact naming.acceptRemote old
  plain member := by
    rcases List.mem_cons.mp (tasks.mem_iff.mp member) with rfl | old
    · exact plain
    · exact naming.plain old
  openOwn := by
    intro r meta' member
    rcases List.mem_cons.mp (tasks.mem_iff.mp member) with rfl | old
    · have := own ⟨r, meta', rfl⟩
      rwa [refs r (by simp [Task.refs])]
    · exact naming.openOwn old
  ownIDs := ownIDs
  remoteIDs := remoteIDs
  opensSent other := by
    have old := naming.opensSent other
    have opensID : task.opens other = true → other = id := by
      intro opens
      cases task with
      | openFrame r openMeta =>
        have same : r.id = other := by simpa [Task.opens] using opens
        rw [← same, refs r (by simp [Task.refs])]
      | _ => cases opens
    rw [tasks.countP_eq, List.countP_cons, gens]
    simp only [Endpoint.create, Function.update_apply]
    by_cases same : other = id
    · subst same
      simp only [if_true]
      split <;> omega
    · rw [if_neg fun opens => same (opensID opens), if_neg same]
      omega
  opensOwn := naming.opensOwn

/-- The work of all goroutines when the `k`-th of them has gone on. -/
theorem tasks_step {k : Nat} {task : Task} {rest more : List Task}
    (found : e.threads[k]? = some (task :: rest)) (after : Endpoint)
    (loop : after.loop = e.loop) :
    ∃ others, e.tasks.Perm (task :: others) ∧
      (Endpoint.tasks { after with threads := e.threads.set k (more ++ rest) }).Perm
        (more ++ others) := by
  obtain ⟨others, old, new⟩ := flatten_set_perm found
  refine ⟨rest ++ (e.loop ++ others), ?_, ?_⟩
  · refine (List.Perm.append_left _ old).trans ?_
    simp only [List.cons_append]
    exact List.perm_middle.trans (.cons _ (List.perm_append_comm_assoc ..))
  · rw [Endpoint.tasks, loop]
    refine (List.Perm.append_left _ (new (more ++ rest))).trans ?_
    simp only [List.append_assoc]
    refine (List.perm_append_comm_assoc ..).trans (.append_left _ ?_)
    exact List.perm_append_comm_assoc ..

/-- The next id is new until they wrap around. -/
theorem Naming.nextUnused (naming : Naming client e sent received)
    (room : e.opened < maxOpened) : e.gens e.session.nextID = 0 := by
  by_contra used
  have own : Own client e.session.nextID := naming.next ▸ localID_own ..
  obtain ⟨k, before, same⟩ := naming.ownIDs own (Nat.pos_of_ne_zero used)
  rw [naming.next] at same
  have := localID_injective room (Nat.lt_trans before room) same
  omega

/-- Every call, timer and goroutine keeps the names unique while the side has
not run out of ids. -/
theorem Naming.act {a : Act} {out : List Bytes}
    (naming : Naming client e sent received) (acted : e.act a = some (after, out))
    (room : ∀ openMeta, a = .openStream openMeta → e.opened < maxOpened) :
    Naming client after (sent ++ frames out) received := by
  have silent {after : Endpoint} (kept : Naming client after sent received) :
      Naming client after (sent ++ frames []) received := by
    rwa [frames_nil, List.append_nil]
  have set {r : Ref} (present : (e.heap r).isSome = true) (handle : Handle) :
      Naming client (e.setHandle r handle) sent received := by
    apply naming.move <;> try simp [Endpoint.setHandle, Endpoint.tasks]
    · exact setHandle_isSome present _
    · exact fun member => Or.inl member
    · exact fun member => Or.inl member
  cases Endpoint.acted_of_act acted with
  | @openStream openMeta alive =>
    have unused : e.gens e.session.nextID = 0 := naming.nextUnused (room _ rfl)
    refine silent (naming.create openMeta
      (.openFrame { id := e.session.nextID, gen := e.gens e.session.nextID } openMeta) unused
      rfl rfl rfl rfl ?_ trivial ?_ ?_ ?_ ?_ (room _ rfl) ?_ ?_)
    · simp only [Endpoint.tasks, Endpoint.create, List.flatten_append,
        List.flatten_cons, List.flatten_nil, ← List.append_assoc, List.append_nil]
      exact List.perm_append_singleton _ _
    · simp [Task.refs, unused]
    · simp
    · intro _
      exact naming.next ▸ localID_own ..
    · simp only [naming.next, localID_succ]
    · intro other own present
      simp only [Endpoint.create, Function.update_apply] at present
      split at present
      next same => exact ⟨e.opened, Nat.lt_succ_self _, same ▸ naming.next⟩
      · obtain ⟨k, before, same⟩ := naming.ownIDs own present
        exact ⟨k, Nat.lt_succ_of_lt before, same⟩
    · intro other remote
      have isRemote : other ≠ e.session.nextID := by
        rintro rfl
        exact remote (naming.next ▸ localID_own ..)
      simp only [Endpoint.create, Function.update_apply, if_neg isRemote]
      exact naming.remoteIDs remote
  | @accept r rest handle offered present =>
    have keep := setHandle_isSome (e := e) (r := r) (by simp [present]) { handle with held := true }
    apply naming.move <;> try simp [Endpoint.setHandle, Endpoint.tasks]
    · exact keep
    · intro other member
      exact Or.inl (by simp [offered, member])
    · intro task member
      exact Or.inl member
  | @call a r tasks calls holds =>
    have shape : ∀ task ∈ tasks, (∀ other ∈ task.refs, other = r) ∧ task.Plain ∧
        (∀ other, task ≠ .acceptSend other) ∧
          ∀ other openMeta, task ≠ .openFrame other openMeta := by
      cases a <;> cases calls <;> simp [Task.refs, Task.Plain]
    obtain ⟨handle, found, -⟩ := Endpoint.holds_iff.mp holds
    exact silent (naming.spawn fun task member =>
      ⟨fun other inRefs => by simp [(shape task member).1 other inRefs, found],
        (shape task member).2⟩)
  | read _ present => exact silent (set (by simp [present]) _)
  | readGrant _ present =>
    exact silent ((set (by simp [present]) _).spawn
      (by simp [Task.Harmless, Task.refs, Task.Plain]))
  | closeSession | ping =>
    exact silent (naming.spawn (by simp [Task.Harmless, Task.refs, Task.Plain]))
  | readError idle =>
    exact silent (naming.startLoop idle rfl rfl rfl rfl rfl
      (by simp [Task.Harmless, Task.refs, Task.Plain]))
  | @step k task rest move found ran =>
    have keeps := Endpoint.exec_keeps
      (naming.plain (List.mem_append_right _
        (List.mem_flatten_of_mem (List.mem_of_getElem? found) (by simp)))) ran
    obtain ⟨others, before, now⟩ := tasks_step found move.after keeps.loop
    exact naming.run ran rfl rfl rfl rfl before now
  | @stepLoop task rest move found ran =>
    have keeps := Endpoint.exec_keeps (naming.plain (by simp [Endpoint.tasks, found])) ran
    have before : e.tasks.Perm (task :: (rest ++ e.threads.flatten)) := by
      simp [Endpoint.tasks, found]
    exact naming.run ran rfl rfl rfl rfl before (by simp [Endpoint.tasks, keeps.threads])

theorem Naming.more (naming : Naming client e sent received) (later : List Frame) :
    Naming client e sent (received ++ later) :=
  { naming with
    remoteIDs := fun remote => (naming.remoteIDs remote).trans (by simp) }

theorem frames_of_decode {message : Bytes} {frame : Frame}
    (decoded : decodeFrame message = some frame) : frames [message] = [frame] := by
  rw [frames, List.filterMap_cons_some decoded]
  rfl

theorem frames_of_garbage {message : Bytes} (garbage : decodeFrame message = none) :
    frames [message] = [] := by
  rw [frames, List.filterMap_cons_none garbage]
  rfl

/-- The other side opens a stream under an id that is its own and new. -/
theorem Naming.arrivalUnused {frame : Frame} (naming : Naming client e sent received)
    (isOpen : frame.type = .fOpen)
    (once : ∀ id, (received ++ [frame]).countP (Frame.opens id) ≤ 1)
    (foreign : ∀ {id}, 0 < (received ++ [frame]).countP (Frame.opens id) →
      ¬ Own client id) :
    ¬ Own client frame.streamID ∧ e.gens frame.streamID = 0 := by
  have opens : frame.opens frame.streamID = true := by simp [Frame.opens, isOpen]
  have remote : ¬ Own client frame.streamID :=
    foreign (by simp [List.countP_append, opens])
  have first := once frame.streamID
  simp only [List.countP_append, List.countP_cons, List.countP_nil, opens,
    if_true] at first
  have := naming.remoteIDs remote
  exact ⟨remote, by omega⟩

/-- Every arriving frame keeps the names unique, as long as the other side
opens each of its own ids once and none of ours. -/
theorem Naming.receive {message : Bytes}
    (naming : Naming client e sent received)
    (arrived : e.receive message = some after)
    (once : ∀ id, (received ++ frames [message]).countP (Frame.opens id) ≤ 1)
    (foreign : ∀ {id}, 0 < (received ++ frames [message]).countP (Frame.opens id) →
      ¬ Own client id) :
    Naming client after sent (received ++ frames [message]) := by
  simp only [Endpoint.receive] at arrived
  split at arrived
  next idle =>
    cases decoded : decodeFrame message with
    | none =>
      simp only [decoded, Option.some.injEq] at arrived
      subst arrived
      exact naming.more _
    | some frame =>
      simp only [decoded, Option.some.injEq] at arrived
      subst arrived
      rw [frames_of_decode decoded] at once foreign ⊢
      have known : ∀ {r}, e.session.streams.lookup frame.streamID = some r →
          (e.heap r).isSome = true := fun found => (naming.registered found).2
      have later := naming.more [frame]
      have start : ∀ {tasks : List Task}, (∀ task ∈ tasks, task.Harmless e) →
          Naming client { e with loop := tasks } sent (received ++ [frame]) := by
        intro tasks harmless
        exact later.startLoop idle.1 rfl rfl rfl rfl rfl harmless
      unfold Endpoint.dispatch
      cases kind : frame.type with
      | fOpen =>
        obtain ⟨remote, unused⟩ := naming.arrivalUnused kind once foreign
        have isOpen : frame.opens frame.streamID = true := by
          simp [Frame.opens, kind]
        refine naming.create frame.payload (.acceptSend { id := frame.streamID })
          unused rfl rfl rfl rfl ?_ trivial ?_ ?_ ?_ naming.next naming.bound ?_ ?_
        · simp [Endpoint.tasks, Endpoint.create, idle.1, unused]
        · simp [Task.refs]
        · exact fun _ => remote
        · simp
        · intro other own present
          have isOwn : other ≠ frame.streamID := by
            rintro rfl
            exact remote own
          simp only [Endpoint.create, Function.update_apply, if_neg isOwn] at present
          exact naming.ownIDs own present
        · intro other otherRemote
          have old := naming.remoteIDs otherRemote
          simp only [Endpoint.create, Function.update_apply, List.countP_append,
            List.countP_cons, List.countP_nil]
          split
          next same =>
            subst same
            rw [isOpen]
            simp
            omega
          · omega
      | fPong => exact later
      | unknown code => exact later
      | fPing => exact start (by simp [Task.Harmless, Task.refs, Task.Plain])
      | fReset =>
        cases found : e.session.streams.lookup frame.streamID with
        | none => exact later
        | some r =>
          exact start (by simp [Task.Harmless, Task.refs, Task.Plain, known found])
      | _ =>
        cases found : e.session.streams.lookup frame.streamID with
        | none => exact later
        | some r =>
          exact start (by simp [Task.Harmless, Task.refs, Task.Plain, known found])
  · cases arrived

end Moves

/-- What one side relies on: the other opens each of its ids once, and only its
own. -/
theorem Naming.foreign {client : Bool} {peer : Endpoint}
    {sent peerReceived received : List Frame}
    (naming : Naming (!client) peer sent peerReceived) (arrived : received <+: sent) :
    (∀ id, received.countP (Frame.opens id) ≤ 1) ∧
      ∀ {id}, 0 < received.countP (Frame.opens id) → ¬ Own client id := by
  have le : ∀ id, received.countP (Frame.opens id) ≤ sent.countP (Frame.opens id) :=
    fun id => arrived.sublist.countP_le
  constructor
  · intro id
    have := naming.opensSent id
    have := naming.gens_le id
    have := le id
    omega
  · intro id some own
    have theirs := naming.opensOwn (lt_of_lt_of_le some (le id))
    exact absurd own (not_own_iff.mpr theirs)

/-- Both sides start with nothing named. -/
theorem Naming.start {client : Bool} {cfg : Config} (side : cfg.client = client) :
    Naming client (newEndpoint cfg) [] [] where
  next := by simp [newEndpoint, newSession, localID_zero, side]
  bound := Nat.zero_le _
  gens_le := by simp [newEndpoint]
  heap_iff := by simp [newEndpoint]
  registered := by simp [newEndpoint, newSession]
  tasksKnown := by simp [newEndpoint, Endpoint.tasks]
  acceptKnown := by simp [newEndpoint, newSession]
  acceptRemote := by simp [newEndpoint, Endpoint.tasks]
  plain := by simp [newEndpoint, Endpoint.tasks]
  openOwn := by simp [newEndpoint, Endpoint.tasks]
  ownIDs := by simp [newEndpoint]
  remoteIDs := by simp [newEndpoint]
  opensSent := by simp [newEndpoint, Endpoint.tasks]
  opensOwn := by simp

end HelixKit.Stream
