/-
Purpose: Credit-based flow control: in each direction the window, the data on their way, what is
  yet to be granted and the credit on its way add up to the initial window.
Trusted boundary: none
Main exports: flow_control_wraps
-/
import HelixKit.Stream.Delivery

namespace HelixKit.Stream

open HelixKit.Duplex HelixKit.History

/-- The credit that a pending CREDIT frame carries. -/
def Task.granting : Task → Nat
  | .writeFrame .fCredit _ payload => (decodeCredit payload).toNat
  | _ => 0

/-- The credit that the read loop has yet to hand to the stream. -/
def Task.crediting : Task → Nat
  | .onStream _ (.onCredit n) => n.toNat
  | _ => 0

/-- A read either grants nothing, or an amount that a CREDIT frame can carry. -/
def GrantFits (creditThreshold : Nat) (handle : Handle) (n : Nat) : Prop :=
  creditThreshold ≤ handle.stream.unacked + (handle.stream.rbuf.take n).length →
    handle.stream.unacked + (handle.stream.rbuf.take n).length < 2 ^ 32

/-- The counters of one end of a stream against its histories.  `exact` and
`grantedAll` turn the inequalities into equations while the stream lives. -/
structure FlowControl (W : Nat) (Fits : Nat → Handle → Nat → Prop) (own : Prop)
    (x : Strand) (sent received : List Frame) : Prop where
  delivery : Delivery own x sent received
  initial : x.limits.initialWindow = W
  threshold : x.limits.creditThreshold = W / 2
  window : 0 ≤ x.view.stream.window
  spent : x.view.stream.window + x.view.accepted.length + x.load Task.crediting ≤
    W + creditOf received
  exact : ¬ x.Torn →
    x.view.stream.window + x.view.accepted.length + x.load Task.crediting =
      W + creditOf received
  granted : x.view.stream.unacked + x.load Task.granting + creditOf sent ≤
    x.view.returned.length
  grantedAll : (∀ {threshold handle n}, Fits threshold handle n →
      GrantFits threshold handle n) → ¬ x.Torn →
    x.view.stream.unacked + x.load Task.granting + creditOf sent =
      x.view.returned.length
  small : x.view.stream.unacked < W / 2 ∨ x.view.stream.unacked = 0

/-- What running one task does to the counters of a stream. -/
structure Strand.Counts (x : Strand) (task : Task) (ran : Strand) (more : List Task)
    (out : List Frame) : Prop where
  window : 0 ≤ x.view.stream.window → 0 ≤ ran.view.stream.window
  spent : 0 ≤ x.view.stream.window →
    ran.view.stream.window + ran.view.accepted.length + (more.map Task.crediting).sum =
      x.view.stream.window + x.view.accepted.length + task.crediting
  granted : (more.map Task.granting).sum + creditOf out ≤ task.granting
  grantedAll : x.transportClosed = false →
    (more.map Task.granting).sum + creditOf out = task.granting
  unacked : ran.view.stream.unacked = x.view.stream.unacked
  returned : ran.view.returned = x.view.returned

theorem GoStream.chunk_le (maxChunk : Nat) (st : GoStream) (p : Bytes)
    (window : 0 ≤ st.window) :
    st.chunk maxChunk p ≤ p.length ∧ (st.chunk maxChunk p : Int) ≤ st.window := by
  unfold GoStream.chunk
  omega

theorem Strand.Runs.counts {id : UInt32} {x ran : Strand} {task : Task}
    {more : List Task} {out : List Frame} (runs : x.Runs id task ran more out) :
    x.Counts task ran more out := by
  cases runs with
  | @writeFrame type payload ofStream connected =>
    constructor <;> cases type <;> simp [Task.crediting, Task.granting, creditOf]
  | writeFailed disconnected =>
    constructor <;> simp [Task.crediting, disconnected]
  | openFrame present connected =>
    constructor <;> simp [Strand.view, present, Task.crediting, Task.granting, creditOf]
  | openFailed disconnected =>
    constructor <;> simp [Task.crediting, Task.granting]
  | removeStream | acceptSend | closeTransport =>
    constructor <;> simp [Strand.view, Task.crediting, Task.granting]
  | @onStream op handle effect present ran =>
    cases GoStream.exec_cases ran with
    | @writingReturns p | @writingWaits p | @writingSends p =>
      have chunk := GoStream.chunk_le x.limits.maxChunk handle.stream p
      constructor <;>
        simp [Strand.view, present, Task.crediting, Task.granting, creditOf] <;>
          omega
    | onCredit free =>
      constructor <;>
        simp [Strand.view, present, Task.crediting, Task.granting] <;> omega
    | _ =>
      constructor <;> simp [Strand.view, present, Task.crediting, Task.granting]

section Contract

variable {W : Nat} {Fits : Nat → Handle → Nat → Prop} {own : Prop} {id : UInt32}
variable {x after : Strand} {sent received out : List Frame}

/-- A teardown is never undone. -/
theorem Strand.Step.torn (step : x.Step Fits own id out after) : x.Torn → after.Torn := by
  cases step with
  | idle | startOther | call => exact fun torn => torn
  | @run task rest more put ran _ goroutine runs =>
    have lives := runs.lives
    have resumes : x.Resumes (task :: rest) (more ++ rest) ran _ :=
      goroutine.resumes lives.loop lives.threads
    refine Or.imp (fun closed => ?_) fun once => ?_
    · rw [resumes.closed, lives.closed, closed]
    · exact (lives.closedOnce once).of_handle resumes.handle
  | @close err tasks put notYet goroutine =>
    have resumes : x.Resumes tasks (x.closing id err ++ tasks)
        { x with closed := true, mapped := false } _ := goroutine.resumes rfl rfl
    exact fun _ => Or.inl resumes.closed
  | create _ isOwn absent =>
    refine Or.imp_right ?_
    rintro ⟨handle, present, -⟩
    simp [absent] at present
  | accept isRemote present =>
    refine Or.imp_right ?_
    rintro ⟨handle, found, once⟩
    obtain rfl : _ = handle := by simpa [present] using found
    exact ⟨_, rfl, once⟩
  | read present held fits ran =>
    refine Or.imp_right ?_
    rintro ⟨handle, found, once⟩
    obtain rfl : _ = handle := by simpa [present] using found
    refine ⟨_, rfl, ?_⟩
    cases GoStream.read_cases ran <;> exact once

/-- A move that no counter of the stream takes part in. -/
structure Strand.SameCounters (x after : Strand) : Prop where
  limits : after.limits = x.limits
  window : after.view.stream.window = x.view.stream.window
  accepted : after.view.accepted = x.view.accepted
  unacked : after.view.stream.unacked = x.view.stream.unacked
  returned : after.view.returned = x.view.returned
  crediting : after.load Task.crediting = x.load Task.crediting
  granting : after.load Task.granting = x.load Task.granting
  torn : x.Torn → after.Torn

theorem FlowControl.frame {sent' received' : List Frame}
    (flow : FlowControl W Fits own x sent received) (same : x.SameCounters after)
    (delivery : Delivery own after sent' received')
    (noGrants : creditOf sent' = creditOf sent)
    (noCredit : creditOf received' = creditOf received) :
    FlowControl W Fits own after sent' received' where
  delivery := delivery
  initial := by rw [same.limits]; exact flow.initial
  threshold := by rw [same.limits]; exact flow.threshold
  window := by rw [same.window]; exact flow.window
  spent := by
    rw [same.window, same.accepted, same.crediting, noCredit]
    exact flow.spent
  exact alive := by
    rw [same.window, same.accepted, same.crediting, noCredit]
    exact flow.exact fun torn => alive (same.torn torn)
  granted := by
    rw [same.unacked, same.granting, noGrants, same.returned]
    exact flow.granted
  grantedAll fits alive := by
    rw [same.unacked, same.granting, noGrants, same.returned]
    exact flow.grantedAll fits fun torn => alive (same.torn torn)
  small := by rw [same.unacked]; exact flow.small

theorem Call.grants {tasks : List Task} (called : Call id tasks) :
    (tasks.map Task.granting).sum = 0 ∧ (tasks.map Task.crediting).sum = 0 := by
  cases called <;> simp [Task.granting, Task.crediting]

theorem closing_grants (x : Strand) (id : UInt32) (err : StreamErr)
    (tasks : List Task) :
    ((x.closing id err ++ tasks).map Task.granting).sum =
        (tasks.map Task.granting).sum ∧
      ((x.closing id err ++ tasks).map Task.crediting).sum =
        (tasks.map Task.crediting).sum := by
  unfold Strand.closing
  split <;> simp [Task.granting, Task.crediting]

/-- Running one task. -/
theorem FlowControl.run {task : Task} {rest more : List Task} {ran : Strand}
    (flow : FlowControl W Fits own x sent received) (counts : x.Counts task ran more out)
    (resumes : x.Resumes (task :: rest) (more ++ rest) ran after)
    (limits : ran.limits = x.limits)
    (delivery : Delivery own after (sent ++ out) received)
    (torn : x.Torn → after.Torn) : FlowControl W Fits own after (sent ++ out) received := by
  have view : after.view = ran.view := by
    rw [Strand.view, Strand.view, resumes.handle, resumes.limits]
  have sameLimits : after.limits = x.limits := resumes.limits.trans limits
  have crediting := resumes.load Task.crediting
  have granting := resumes.load Task.granting
  simp only [List.map_cons, List.map_append, List.sum_cons, List.sum_append]
    at crediting granting
  have spent := counts.spent flow.window
  constructor
  case delivery => exact delivery
  case initial => rw [sameLimits]; exact flow.initial
  case threshold => rw [sameLimits]; exact flow.threshold
  case window => rw [view]; exact counts.window flow.window
  case spent =>
    have before := flow.spent
    rw [view]
    omega
  case exact =>
    intro alive
    have before := flow.exact fun wasTorn => alive (torn wasTorn)
    rw [view]
    omega
  case granted =>
    have before := flow.granted
    have step := counts.granted
    rw [view, counts.unacked, counts.returned, creditOf_append]
    omega
  case grantedAll =>
    intro fits alive
    have wasAlive : ¬ x.Torn := fun wasTorn => alive (torn wasTorn)
    have before := flow.grantedAll fits wasAlive
    have connected : x.transportClosed = false := by
      by_contra disconnected
      rw [Bool.not_eq_false] at disconnected
      exact wasAlive (Or.inl (flow.delivery.life.transport disconnected))
    have step := counts.grantedAll connected
    rw [view, counts.unacked, counts.returned, creditOf_append]
    omega
  case small => rw [view, counts.unacked]; exact flow.small

/-- A read that grants its reader's bytes back. -/
theorem FlowControl.read {handle : Handle} {n : Nat} {step : ReadStep}
    (flow : FlowControl W Fits own x sent received) (present : x.handle = some handle)
    (fits : Fits x.limits.creditThreshold handle n)
    (ran : handle.stream.read x.limits.creditThreshold n = some step)
    (delivery : Delivery own (x.afterRead id handle step) sent received)
    (torn : x.Torn → (x.afterRead id handle step).Torn) :
    FlowControl W Fits own (x.afterRead id handle step) sent received := by
  have before : x.view = handle := by rw [Strand.view, present]; rfl
  have view : (x.afterRead id handle step).view =
      { handle with
        stream := step.stream, returned := handle.returned ++ step.result.data } := rfl
  have load : ∀ weight, (x.afterRead id handle step).load weight =
      (if 0 < step.grant then
        weight (.writeFrame .fCredit id (encodeCredit (UInt32.ofNat step.grant)))
      else 0) + x.load weight := by
    intro weight
    unfold Strand.afterRead
    split
    · exact (Strand.load_spawn _ _ weight).trans (by simp [Strand.load, Strand.goroutines])
    · simp [Strand.load, Strand.goroutines]
  have crediting : (x.afterRead id handle step).load Task.crediting =
      x.load Task.crediting := by
    simp [load, Task.crediting]
  have granting := load Task.granting
  simp only [Task.granting, decodeCredit_encodeCredit, UInt32.toNat_ofNat'] at granting
  have sender : step.stream.window = handle.stream.window := by
    cases GoStream.read_cases ran <;> rfl
  have granted := flow.granted
  have small := flow.small
  rw [before] at granted small
  have read : step.stream.unacked + step.grant + handle.returned.length =
        handle.stream.unacked + (handle.returned ++ step.result.data).length ∧
      (step.stream.unacked < W / 2 ∨ step.stream.unacked = 0) ∧
        (GrantFits x.limits.creditThreshold handle n → step.grant < 2 ^ 32) := by
    have threshold := flow.threshold
    cases GoStream.read_cases ran with
    | failed | eof => simpa [ReadResult.data] using small
    | grants some enough =>
      refine ⟨?_, Or.inr rfl, fun fits => fits enough⟩
      simp only [ReadResult.data, List.length_append]
      omega
    | keeps some few =>
      refine ⟨?_, Or.inl (by simp only; omega), fun _ => by simp⟩
      simp only [ReadResult.data, List.length_append]
      omega
  obtain ⟨sum, few, fit⟩ := read
  have window := flow.window
  have spent := flow.spent
  have exact_ := flow.exact
  have all := flow.grantedAll
  rw [before] at window spent exact_ all
  constructor
  case delivery => exact delivery
  case initial => exact flow.initial
  case threshold => exact flow.threshold
  case window => simpa only [view, sender] using window
  case spent => simpa only [view, sender, crediting] using spent
  case exact =>
    intro alive
    simpa only [view, sender, crediting] using exact_ fun wasTorn => alive (torn wasTorn)
  case granted =>
    simp only [view, granting]
    split <;> omega
  case grantedAll =>
    intro allFit alive
    have all := all allFit fun wasTorn => alive (torn wasTorn)
    have fit := fit (allFit fits)
    simp only [view, granting]
    split <;> omega
  case small => exact few

theorem flow_act (flow : FlowControl W Fits own x sent received)
    (step : x.Step Fits own id out after) :
    FlowControl W Fits own after (sent ++ out) received := by
  have delivery : Delivery own after (sent ++ out) received := delivery_act flow.delivery step
  have torn := step.torn
  cases step with
  | idle => simpa using flow
  | @run task rest more put ran _ goroutine runs =>
    have lives := runs.lives
    exact flow.run runs.counts (goroutine.resumes lives.loop lives.threads) lives.limits
      delivery torn
  | @close err tasks put notYet goroutine =>
    have resumes : x.Resumes tasks (x.closing id err ++ tasks)
        { x with closed := true, mapped := false } _ := goroutine.resumes rfl rfl
    have view : Strand.view
        (put (x.closing id err ++ tasks) { x with closed := true, mapped := false }) =
          x.view := by
      rw [Strand.view, Strand.view, resumes.handle, resumes.limits]
    obtain ⟨grants, credits⟩ := closing_grants x id err tasks
    have granting := resumes.load Task.granting
    have crediting := resumes.load Task.crediting
    refine flow.frame ⟨resumes.limits, ?_, ?_, ?_, ?_, by omega, by omega, torn⟩ delivery
      (by simp) rfl <;> rw [view]
  | startOther =>
    refine flow.frame ⟨rfl, rfl, rfl, rfl, rfl, ?_, ?_, torn⟩ delivery (by simp) rfl <;>
      rw [Strand.load_spawn] <;> simp
  | call present held called =>
    obtain ⟨grants, credits⟩ := called.grants
    refine flow.frame ⟨rfl, rfl, rfl, rfl, rfl, ?_, ?_, torn⟩ delivery (by simp) rfl <;>
      rw [Strand.load_spawn] <;> omega
  | create openMeta isOwn absent =>
    have view : x.view = { stream := newStream x.limits.initialWindow [] } := by
      simp [Strand.view, absent]
    have load : ∀ weight : Task → Nat, weight (.openFrame { id } openMeta) = 0 →
        Strand.load
          { x with
            handle := some { stream := newStream x.limits.initialWindow openMeta }
            mapped := true
            threads := [.openFrame { id } openMeta] ::ₘ x.threads } weight =
          x.load weight := by
      intro weight idle
      exact (Strand.load_spawn _ _ weight).trans (by
        simp [idle, Strand.load, Strand.goroutines])
    refine flow.frame ⟨rfl, ?_, ?_, ?_, ?_, load _ rfl, load _ rfl, torn⟩ delivery
      (by simp) rfl <;> rw [view] <;> rfl
  | @accept handle isRemote present =>
    have view : x.view = handle := by rw [Strand.view, present]; rfl
    refine flow.frame ⟨rfl, ?_, ?_, ?_, ?_, rfl, rfl, torn⟩ delivery
      (by simp) rfl <;> rw [view] <;> rfl
  | read present held fits ran =>
    rw [List.append_nil] at delivery ⊢
    exact flow.read present fits ran delivery torn

theorem Strand.load_startLoop (idle : x.loop = []) (tasks : List Task)
    (weight : Task → Nat) :
    Strand.load { x with loop := tasks } weight =
      (tasks.map weight).sum + x.load weight := by
  simp [Strand.load, Strand.goroutines, idle]

theorem Strand.Receive.torn {frame : Frame} (arrived : x.Receive own id frame after) :
    x.Torn → after.Torn := by
  cases arrived with
  | opened isOpen isRemote absent =>
    refine Or.imp_right ?_
    rintro ⟨handle, present, -⟩
    simp [absent] at present
  | forward | reset | dropped => exact fun torn => torn

/-- The read loop sets to work for a frame that carries no credit. -/
theorem FlowControl.hear {tasks : List Task} {frame : Frame}
    (flow : FlowControl W Fits own x sent received) (idle : x.loop = [])
    (noCredit : creditOf [frame] = 0) (credits : (tasks.map Task.crediting).sum = 0)
    (grants : (tasks.map Task.granting).sum = 0)
    (delivery : Delivery own { x with loop := tasks } sent (received ++ [frame])) :
    FlowControl W Fits own { x with loop := tasks } sent (received ++ [frame]) := by
  have crediting := Strand.load_startLoop idle tasks Task.crediting
  have granting := Strand.load_startLoop idle tasks Task.granting
  exact flow.frame ⟨rfl, rfl, rfl, rfl, rfl, by omega, by omega, fun torn => torn⟩ delivery
    rfl (by rw [creditOf_append, noCredit, Nat.add_zero])

theorem flow_receive {frame : Frame} (flow : FlowControl W Fits own x sent received)
    (rely : Rely (FlowControl W Fits (¬ own)) sent (received ++ [frame]))
    (idle : x.loop = []) (arrived : x.Receive own id frame after) :
    FlowControl W Fits own after sent (received ++ [frame]) := by
  have theirs := Rely.mono rely FlowControl.delivery
  have delivery : Delivery own after sent (received ++ [frame]) :=
    delivery_receive flow.delivery (Rely.delivery_hears theirs) (Rely.endsLast theirs) idle
      arrived
  have torn := arrived.torn
  cases arrived with
  | opened isOpen isRemote absent =>
    have view : x.view = { stream := newStream x.limits.initialWindow [] } := by
      simp [Strand.view, absent]
    have load : ∀ weight : Task → Nat, weight (.acceptSend { id }) = 0 →
        Strand.load
          { x with
            handle := some { stream := newStream x.limits.initialWindow frame.payload }
            mapped := true
            loop := [.acceptSend { id }] } weight = x.load weight := by
      intro weight none
      exact (Strand.load_startLoop idle _ weight).trans (by simp [none])
    refine flow.frame ⟨rfl, ?_, ?_, ?_, ?_, load _ rfl, load _ rfl, torn⟩ delivery rfl
      (by simp [creditOf, isOpen]) <;> rw [view] <;> rfl
  | @forward op registered isOp =>
    by_cases isCredit : frame.type = .fCredit
    · simp only [Frame.op, isCredit, Option.some.injEq] at isOp
      subst isOp
      have crediting := Strand.load_startLoop idle
        [.onStream { id } (.onCredit (decodeCredit frame.payload))] Task.crediting
      have granting := Strand.load_startLoop idle
        [.onStream { id } (.onCredit (decodeCredit frame.payload))] Task.granting
      have credit : creditOf (received ++ [frame]) =
          creditOf received + (decodeCredit frame.payload).toNat := by
        simp [creditOf, isCredit]
      simp only [List.map_cons, List.map_nil, List.sum_cons, List.sum_nil,
        Task.crediting, Task.granting] at crediting granting
      exact
        { delivery
          initial := flow.initial
          threshold := flow.threshold
          window := flow.window
          spent := by
            have spent := flow.spent
            rw [crediting, credit]
            push_cast
            change x.view.stream.window + x.view.accepted.length + _ ≤ _
            omega
          exact := fun alive => by
            have all := flow.exact alive
            rw [crediting, credit]
            push_cast
            change x.view.stream.window + x.view.accepted.length + _ = _
            omega
          granted := by
            have granted := flow.granted
            change x.view.stream.unacked + _ + _ ≤ x.view.returned.length
            omega
          grantedAll := fun fits alive => by
            have all := flow.grantedAll fits alive
            change x.view.stream.unacked + _ + _ = x.view.returned.length
            omega
          small := flow.small }
    · have quiet : Task.crediting (.onStream { id } op) = 0 := by
        unfold Frame.op at isOp
        split at isOp <;> simp_all <;> subst isOp <;> rfl
      exact flow.hear idle (by simp [creditOf, isCredit]) (by simp [quiet]) rfl delivery
  | reset isReset registered =>
    exact flow.hear idle (by simp [creditOf, isReset]) rfl rfl delivery
  | dropped notOpen unmapped =>
    have present : x.handle ≠ none := fun absent => by
      simpa using (delivery.life.absent absent).2.2.2
    have isTorn := flow.delivery.life.registered present unmapped
    exact
      { flow with
        delivery
        spent := flow.spent.trans (by rw [creditOf_append]; push_cast; omega)
        exact := fun alive => absurd isTorn alive }

theorem flow_contract :
    Strand.Contract Fits own id (FlowControl W Fits own) (FlowControl W Fits (¬ own)) where
  act flow _ step := flow_act flow step
  receive flow rely _ idle arrived := flow_receive flow rely idle arrived

end Contract

/-- Before anything has happened. -/
theorem flow_start {W : Nat} {Fits : Nat → Handle → Nat → Prop} (own : Prop)
    {cfg : Config} (initial : cfg.initialWindow = W) (positive : 1 ≤ W) (id : UInt32) :
    FlowControl W Fits own ((newEndpoint cfg).strand id) [] [] := by
  have window : (newSession cfg).initialWindow = W := by
    simp only [newSession, initial]
    rw [if_neg (by omega)]
    rfl
  have threshold : (newSession cfg).creditThreshold = W / 2 := by rw [← window]; rfl
  have view : ((newEndpoint cfg).strand id).view = { stream := newStream W [] } := by
    rw [← window]
    rfl
  have load : ∀ weight, ((newEndpoint cfg).strand id).load weight = 0 := by
    simp [Strand.load, Strand.goroutines, Endpoint.strand, newEndpoint]
  constructor
  case delivery => exact delivery_start own cfg id
  case initial => exact window
  case threshold => exact threshold
  all_goals simp [view, load, newStream]

/-- The DATA bytes of the stream `id` that `receiver` has yet to take in: those in
the channel, and those its read loop holds. -/
def dataInFlight (id : UInt32) (receiver : Endpoint) (channel : List Bytes) : Nat :=
  (dataOf (about id (frames channel))).length + (receiver.strand id).arriving.length

/-- The credit that `receiver` has granted and `sender` has yet to take in: in
CREDIT frames about to be written, in the channel, and in the read loop. -/
def creditInFlight (id : UInt32) (sender receiver : Endpoint) (channel : List Bytes) : Nat :=
  (receiver.strand id).load Task.granting + creditOf (about id (frames channel)) +
    (sender.strand id).load Task.crediting

/-- One direction of a stream, from `sender` to `receiver`. -/
structure Balanced (W : Nat) (id : UInt32) (sender receiver : Endpoint)
    (data credit : List Bytes) : Prop where
  sum : (sender.strand id).view.stream.window + dataInFlight id receiver data +
      (receiver.strand id).view.stream.rbuf.length +
        (receiver.strand id).view.stream.unacked +
          creditInFlight id sender receiver credit = W
  rbuf : (receiver.strand id).view.stream.rbuf.length ≤ W
  window : 0 ≤ (sender.strand id).view.stream.window
  open_ : dataInFlight id receiver data = 0 → creditInFlight id sender receiver credit = 0 →
    (receiver.strand id).view.stream.rbuf = [] →
      1 ≤ (sender.strand id).view.stream.window

section Ends

variable {W : Nat} {Fits : Nat → Handle → Nat → Prop} {own own' : Prop} {id : UInt32}
variable {sender receiver : Endpoint} {data credit : List Bytes}
variable {sent received sent' received' : List Frame}

/-- While a stream lives, what it has read and what it still holds is what
arrived. -/
theorem FlowControl.arrived {x : Strand} (flow : FlowControl W Fits own x sent received)
    (alive : ¬ x.Torn) :
    x.view.returned.length + x.view.stream.rbuf.length + x.arriving.length =
      (dataOf received).length := by
  have life := flow.delivery.life
  have working : x.view.stream.rerr = none := by
    by_contra failed
    cases present : x.handle with
    | none => simp [Strand.view, present, newStream] at failed
    | some handle =>
      rw [Strand.view, present, Option.getD_some] at failed
      exact alive (Or.inr ⟨handle, present, life.readFails present failed⟩)
  by_cases present : x.handle = none
  · obtain ⟨-, -, -, deaf⟩ := life.absent present
    have coming := flow.delivery.recv.coming working
    rw [deaf, dataOf_nil, List.prefix_nil] at coming
    have lengths := congrArg List.length coming
    simp only [List.length_append, List.length_nil] at lengths
    simp only [deaf, dataOf_nil, List.length_nil]
    omega
  · have registered : x.mapped = true := by
      by_contra unmapped
      rw [Bool.not_eq_true] at unmapped
      exact alive (life.registered present unmapped)
    rw [← flow.delivery.recv.whole working (Or.inl registered)]
    simp only [List.length_append]

/-- A reader never holds more than the initial window, torn down or not. -/
theorem FlowControl.rbuf_le {x y : Strand} (reader : FlowControl W Fits own x sent received)
    (writer : FlowControl W Fits own' y sent' received') (arrived : received <+: sent')
    (granted : received' <+: sent) :
    x.view.stream.rbuf.length + x.view.stream.unacked ≤ W := by
  have held := (reader.delivery.recv.returned.trans (dataOf_mono arrived)).length_le
  have accepted := congrArg List.length writer.delivery.send.accepted
  have spent := writer.spent
  have window := writer.window
  have grants := reader.granted
  have credit := creditOf_mono granted
  simp only [List.length_append] at held
  omega

theorem FlowControl.balanced
    (writer : FlowControl W Fits own (sender.strand id) sent received)
    (reader : FlowControl W Fits own' (receiver.strand id) sent' received')
    (fits : ∀ {threshold handle n}, Fits threshold handle n → GrantFits threshold handle n)
    (positive : 1 ≤ W) (dataFifo : sent = received' ++ about id (frames data))
    (creditFifo : sent' = received ++ about id (frames credit))
    (writerAlive : ¬ (sender.strand id).Torn) (readerAlive : ¬ (receiver.strand id).Torn) :
    Balanced W id sender receiver data credit := by
  have spent := writer.exact writerAlive
  have granted := reader.grantedAll fits readerAlive
  have arrived := reader.arrived readerAlive
  have accepted := congrArg List.length writer.delivery.send.accepted
  rw [dataFifo, dataOf_append, List.length_append] at accepted
  rw [creditFifo, creditOf_append] at granted
  have sum : (sender.strand id).view.stream.window + dataInFlight id receiver data +
      (receiver.strand id).view.stream.rbuf.length +
        (receiver.strand id).view.stream.unacked +
          creditInFlight id sender receiver credit = W := by
    unfold dataInFlight creditInFlight
    omega
  have window := writer.window
  refine ⟨sum, by omega, window, ?_⟩
  intro noData noCredit empty
  rw [noData, noCredit, empty] at sum
  simp only [List.length_nil] at sum
  have small := reader.small
  omega

end Ends

/-- Both ends of every stream keep their counters in every run. -/
theorem flow_run {W : Nat} {Fits : Nat → Handle → Nat → Prop} {capacity : Option Nat}
    {leftCfg rightCfg : Config} (client : leftCfg.client = true)
    (server : rightCfg.client = false) (leftWindow : leftCfg.initialWindow = W)
    (rightWindow : rightCfg.initialWindow = W) (positive : 1 ≤ W)
    {state : State Endpoint Endpoint Bytes} {past : Histories Bytes}
    (run : Run (goPartyWhen fun e a => a.Within Fits e)
      (goPartyWhen fun e a => a.Within Fits e) capacity (newEndpoint leftCfg)
      (newEndpoint rightCfg) state past) :
    SessionInv true (fun id => FlowControl W Fits (Own true id)) state.left past.leftSent
        past.leftReceived ∧
      SessionInv false (fun id => FlowControl W Fits (Own false id)) state.right
        past.rightSent past.rightReceived := by
  have contract : ∀ own id, Strand.Contract Fits own id (FlowControl W Fits own)
      (FlowControl W Fits (¬ own)) := fun _ _ => flow_contract
  exact session_run contract client server
    (fun id => flow_start _ leftWindow positive id)
    (fun id => flow_start _ rightWindow positive id) run

/-- Flow control balances in both directions of every stream that is torn down at
neither end, in every run whose grants fit a CREDIT frame and whose ids do not
wrap around. -/
theorem flow_control {W : Nat} {capacity : Option Nat} {leftCfg rightCfg : Config}
    (client : leftCfg.client = true) (server : rightCfg.client = false)
    (leftWindow : leftCfg.initialWindow = W) (rightWindow : rightCfg.initialWindow = W)
    (positive : 1 ≤ W) {state : State Endpoint Endpoint Bytes} {past : Histories Bytes}
    (run : Run (goPartyWhen fun e a => a.Within GrantFits e)
      (goPartyWhen fun e a => a.Within GrantFits e) capacity (newEndpoint leftCfg)
      (newEndpoint rightCfg) state past) (id : UInt32)
    (leftAlive : ¬ (state.left.strand id).Torn)
    (rightAlive : ¬ (state.right.strand id).Torn) :
    Balanced W id state.left state.right state.toRight state.toLeft ∧
      Balanced W id state.right state.left state.toLeft state.toRight := by
  obtain ⟨⟨-, left⟩, -, right⟩ :=
    flow_run client server leftWindow rightWindow positive run
  have toRight : about id (frames past.leftSent) =
      about id (frames past.rightReceived) ++ about id (frames state.toRight) := by
    rw [run.leftFifo, frames_append, about_append]
  have toLeft : about id (frames past.rightSent) =
      about id (frames past.leftReceived) ++ about id (frames state.toLeft) := by
    rw [run.rightFifo, frames_append, about_append]
  exact ⟨(left id).balanced (right id) (fun fits => fits) positive toRight toLeft leftAlive
      rightAlive,
    (right id).balanced (left id) (fun fits => fits) positive toLeft toRight rightAlive
      leftAlive⟩

theorem SessionInv.grantFits {W : Nat} {client : Bool} {e peer : Endpoint}
    {Fits : Nat → Handle → Nat → Prop} {sent received sent' received' : List Bytes}
    (small : W < 2 ^ 32)
    (inv : SessionInv client (fun id => FlowControl W Fits (Own client id)) e sent received)
    (peerInv : SessionInv (!client) (fun id => FlowControl W Fits (Own (!client) id)) peer
      sent' received')
    (arrived : received <+: sent') (granted : received' <+: sent) {a : Act}
    (within : a.Within Fits e) : a.Within GrantFits e := by
  cases a with
  | openStream => exact within
  | read r n =>
    intro handle present _
    have first := inv.1.ref_eq (r := r) (by simp [present])
    have view : (e.strand r.id).view = handle := by
      rw [first] at present
      change (e.heap _).getD _ = _
      rw [present]
      rfl
    have held := (inv.2 r.id).rbuf_le (peerInv.2 r.id) (about_mono (frames_mono arrived))
      (about_mono (frames_mono granted))
    rw [view] at held
    have part := List.length_take_le' n handle.stream.rbuf
    omega
  | _ => trivial

/-- A window below 2^32 never grants too much: a reader never holds more than the
window. -/
theorem run_grantFits {W : Nat} {capacity : Option Nat} {leftCfg rightCfg : Config}
    (client : leftCfg.client = true) (server : rightCfg.client = false)
    (leftWindow : leftCfg.initialWindow = W) (rightWindow : rightCfg.initialWindow = W)
    (positive : 1 ≤ W) (small : W < 2 ^ 32) {state : State Endpoint Endpoint Bytes}
    {past : Histories Bytes}
    (run : Run (goPartyWhen fun e a => a.Within (fun _ _ _ => True) e)
      (goPartyWhen fun e a => a.Within (fun _ _ _ => True) e) capacity (newEndpoint leftCfg)
      (newEndpoint rightCfg) state past) :
    Run (goPartyWhen fun e a => a.Within GrantFits e)
      (goPartyWhen fun e a => a.Within GrantFits e) capacity (newEndpoint leftCfg)
      (newEndpoint rightCfg) state past := by
  induction run with
  | start => exact .start
  | @next state after past past' before step fits =>
    obtain ⟨left, right⟩ :=
      flow_run client server leftWindow rightWindow positive before
    apply fits.next
    cases step with
    | leftAct move room =>
      obtain ⟨a, within, acted⟩ := move
      exact .leftAct ⟨a, left.grantFits small right before.leftReceived_le
        before.rightReceived_le within, acted⟩ room
    | rightAct move room =>
      obtain ⟨a, within, acted⟩ := move
      exact .rightAct ⟨a, right.grantFits small left before.rightReceived_le
        before.leftReceived_le within, acted⟩ room
    | leftReceive head move room => exact .leftReceive head move room
    | rightReceive head move room => exact .rightReceive head move room

/-- The client opens a stream and the server accepts it. -/
def openScript : List (Turn Act Act) :=
  [.left (.openStream []), .left (.step 0), .toRight, .right .stepLoop, .right .accept]

/-- Four bytes of window: three bytes are written, two of them read, and the credit
for these two is on its way. -/
def creditScript : List (Turn Act Act) :=
  openScript ++
    [.left (.write { id := 1 } [7, 8, 9]), .left (.step 1), .left (.step 1), .toRight,
      .right .stepLoop, .right (.read { id := 1 } 2), .right (.step 0)]

def narrowConfig (client : Bool) : Config := { client, initialWindow := 4 }

def creditRun : Option (State Endpoint Endpoint Bytes × Histories Bytes) :=
  play goMachine goMachine none
    ({ left := newEndpoint (narrowConfig true), right := newEndpoint (narrowConfig false) },
      {}) creditScript

theorem flow_control_script : ∃ now ∈ creditRun,
    (now.1.left.strand 1).view.stream.window = 1 ∧
      creditInFlight 1 now.1.left now.1.right now.1.toLeft = 2 ∧
        Balanced 4 1 now.1.left now.1.right now.1.toRight now.1.toLeft ∧
          Balanced 4 1 now.1.right now.1.left now.1.toLeft now.1.toRight := by
  have finished : creditRun.map (fun now =>
      decide ((now.1.left.strand 1).view.stream.window = 1 ∧
        creditInFlight 1 now.1.left now.1.right now.1.toLeft = 2 ∧
          (now.1.left.opened ≤ maxOpened ∧ now.1.right.opened ≤ maxOpened) ∧
            ¬ (now.1.left.strand 1).Torn ∧ ¬ (now.1.right.strand 1).Torn)) = some true := by
    decide +kernel
  obtain ⟨now, played, result⟩ := Option.map_eq_some_iff.mp finished
  obtain ⟨window, credit, ⟨leftFewer, rightFewer⟩, leftAlive, rightAlive⟩ :=
    of_decide_eq_true result
  have run : Run goParty goParty none (newEndpoint (narrowConfig true))
      (newEndpoint (narrowConfig false)) now.1 now.2 := play_run .start played
  have fits := run_grantFits rfl rfl rfl rfl (by decide) (by decide)
    (run_within run leftFewer rightFewer)
  exact ⟨now, played, window, credit,
    flow_control rfl rfl rfl rfl (by decide) fits 1 leftAlive rightAlive⟩

/-- A window that a CREDIT frame cannot carry. -/
def wideConfig (client : Bool) : Config :=
  { client, initialWindow := 2 ^ 32, maxChunk := 2 ^ 32 }

/-- Where a wide session with its one stream stands. -/
structure Wide (e : Endpoint) (handle : Handle) (loop : List Task)
    (threads : List (List Task)) : Prop where
  handle : e.heap { id := 1 } = some handle
  registered : e.session.streams.lookup 1 = some { id := 1 }
  loop : e.loop = loop
  threads : e.threads = threads
  reading : e.readLoopDone = false
  connected : e.transportClosed = false
  alive : e.session.closed = false
  maxChunk : e.session.maxChunk = 2 ^ 32
  threshold : e.session.creditThreshold = 2 ^ 31

instance (e : Endpoint) (handle : Handle) (loop : List Task)
    (threads : List (List Task)) : Decidable (Wide e handle loop threads) :=
  decidable_of_iff
    (e.heap { id := 1 } = some handle ∧ e.session.streams.lookup 1 = some { id := 1 } ∧
      e.loop = loop ∧ e.threads = threads ∧ e.readLoopDone = false ∧
        e.transportClosed = false ∧ e.session.closed = false ∧
          e.session.maxChunk = 2 ^ 32 ∧ e.session.creditThreshold = 2 ^ 31)
    ⟨fun ⟨a, b, c, d, e, f, g, h, i⟩ => ⟨a, b, c, d, e, f, g, h, i⟩,
      fun ⟨a, b, c, d, e, f, g, h, i⟩ => ⟨a, b, c, d, e, f, g, h, i⟩⟩

section Wide

variable {e : Endpoint} {handle : Handle} {loop : List Task} {threads : List (List Task)}

theorem Wide.write (wide : Wide e handle loop threads) (held : handle.held = true)
    (p : Bytes) : ∃ after, e.act (.write { id := 1 } p) = some (after, []) ∧
      Wide after handle loop (threads ++ [[.onStream { id := 1 } (.write p)]]) := by
  refine ⟨_, Endpoint.call_eq_some.mpr
    ⟨Endpoint.holds_iff.mpr ⟨_, wide.handle, held⟩, rfl, rfl⟩, ?_⟩
  exact { wide with threads := by simp [Endpoint.spawn, wide.threads] }

theorem Wide.step (wide : Wide e handle loop threads) (k : Nat) {op : StreamOp}
    {rest : List Task} {effect : StreamEffect}
    (found : threads[k]? = some (.onStream { id := 1 } op :: rest))
    (ran : handle.stream.exec (2 ^ 32) false op = some effect) :
    ∃ after, e.act (.step k) =
        some (after, (effect.data.map (encodeFrame .fData 1)).toList) ∧
      Wide after
        { handle with
          stream := effect.stream
          accepted := handle.accepted ++ effect.data.getD [] } loop
        (threads.set k
          (effect.continues.map (.onStream { id := 1 }) ++
            (if effect.sendEnd then [.writeFrame .fEnd 1 []] else []) ++ rest)) := by
  rw [← wide.threads] at found
  rw [← wide.maxChunk, ← wide.connected] at ran
  refine ⟨{ e.setHandle { id := 1 } { handle with
        stream := effect.stream
        accepted := handle.accepted ++ effect.data.getD [] } with
      panicked := e.panicked || effect.panics
      threads := e.threads.set k
        (effect.continues.map (.onStream { id := 1 }) ++
          (if effect.sendEnd then [.writeFrame .fEnd 1 []] else []) ++ rest) }, ?_, ?_⟩
  · simp [Endpoint.act, found, Endpoint.exec, wide.handle, ran]
  · constructor <;> simp [Endpoint.setHandle, wide.threads, wide.registered, wide.loop,
      wide.reading, wide.connected, wide.alive, wide.maxChunk, wide.threshold]

theorem Wide.stepLoop {op : StreamOp} {rest : List Task} {effect : StreamEffect}
    (wide : Wide e handle (.onStream { id := 1 } op :: rest) threads)
    (ran : handle.stream.exec (2 ^ 32) false op = some effect)
    (silent : effect.data = none) (noEnd : effect.sendEnd = false) :
    ∃ after, e.act .stepLoop = some (after, []) ∧
      Wide after { handle with stream := effect.stream }
        (effect.continues.map (.onStream { id := 1 }) ++ rest) threads := by
  rw [← wide.maxChunk, ← wide.connected] at ran
  refine ⟨{ e.setHandle { id := 1 } { handle with stream := effect.stream } with
      panicked := e.panicked || effect.panics
      loop := effect.continues.map (.onStream { id := 1 }) ++ rest }, ?_, ?_⟩
  · simp [Endpoint.act, wide.loop, Endpoint.exec, wide.handle, ran, silent, noEnd]
  · constructor <;> simp [Endpoint.setHandle, wide.threads, wide.registered,
      wide.reading, wide.connected, wide.alive, wide.maxChunk, wide.threshold]

theorem Wide.data (wide : Wide e handle [] threads) (p : Bytes) :
    ∃ after, e.receive (encodeFrame .fData 1 p) = some after ∧
      Wide after handle [.onStream { id := 1 } (.onData p)] threads := by
  refine ⟨{ e with loop := [.onStream { id := 1 } (.onData p)] }, ?_, ?_⟩
  · simp [Endpoint.receive, wide.loop, wide.reading, wide.connected, Endpoint.dispatch,
      wide.registered]
  · constructor <;> simp [wide.handle, wide.threads, wide.registered, wide.reading,
      wide.connected, wide.alive, wide.maxChunk, wide.threshold]

theorem Wide.read {n : Nat} {step : ReadStep} (wide : Wide e handle loop threads)
    (held : handle.held = true) (ran : handle.stream.read (2 ^ 31) n = some step)
    (grants : 0 < step.grant) :
    ∃ after, e.act (.read { id := 1 } n) = some (after, []) ∧
      Wide after
        { handle with
          stream := step.stream, returned := handle.returned ++ step.result.data } loop
        (threads ++
          [[.writeFrame .fCredit 1 (encodeCredit (UInt32.ofNat step.grant))]]) := by
  have holds := Endpoint.holds_iff.mpr ⟨_, wide.handle, held⟩
  rw [← wide.threshold] at ran
  refine ⟨(e.setHandle { id := 1 } { handle with
      stream := step.stream
      returned := handle.returned ++ step.result.data }).spawn
        [.writeFrame .fCredit 1 (encodeCredit (UInt32.ofNat step.grant))], ?_, ?_⟩
  · simp [Endpoint.act, holds, wide.handle, ran, grants]
  · constructor <;> simp [Endpoint.setHandle, Endpoint.spawn, wide.threads,
      wide.registered, wide.reading, wide.connected, wide.alive, wide.maxChunk,
      wide.threshold, wide.loop]

end Wide

theorem wide_open :
    ((play goMachine goMachine none
      ({ left := newEndpoint (wideConfig true), right := newEndpoint (wideConfig false) }, {})
        openScript).map fun now =>
      decide (Wide now.1.left { stream := newStream (2 ^ 32) [], held := true } [] [[]] ∧
        Wide now.1.right { stream := newStream (2 ^ 32) [], held := true } [] [] ∧
          now.1.toRight = [] ∧ now.1.toLeft = [])) = some true := by
  decide

/-- With a window of 2^32 bytes a read of the whole window grants 2^32, which a
CREDIT frame carries as 0: the stream is stuck for good. -/
theorem flow_control_wraps : ∃ (state : State Endpoint Endpoint Bytes) (past : _),
    Run goParty goParty none (newEndpoint (wideConfig true))
        (newEndpoint (wideConfig false)) state past ∧
      ¬ (state.left.strand 1).Torn ∧ ¬ (state.right.strand 1).Torn ∧
        ¬ Balanced (2 ^ 32) 1 state.left state.right state.toRight state.toLeft := by
  obtain ⟨p, long⟩ : ∃ p : Bytes, p.length = 2 ^ 32 :=
    ⟨List.replicate (2 ^ 32) 0, List.length_replicate⟩
  have nonempty : p ≠ [] := by
    rintro rfl
    simp at long
  obtain ⟨⟨opened, past⟩, played, ready⟩ := Option.map_eq_some_iff.mp wide_open
  obtain ⟨left, right, toRight, toLeft⟩ :
      Wide opened.left { stream := newStream (2 ^ 32) [], held := true } [] [[]] ∧
        Wide opened.right { stream := newStream (2 ^ 32) [], held := true } [] [] ∧
          opened.toRight = [] ∧ opened.toLeft = [] := of_decide_eq_true ready
  have run : Run goParty goParty none _ _ opened past := play_run .start played
  have writes : (newStream (2 ^ 32) []).exec (2 ^ 32) false (.write p) =
      some
        { stream := { newStream (2 ^ 32) [] with smu := true }
          continues := [.writing p] } := by
    simp [GoStream.exec, GoStream.writeNext, newStream, nonempty]
  have sends : GoStream.exec (2 ^ 32) false { newStream (2 ^ 32) [] with smu := true }
      (.writing p) =
        some { stream := { newStream (2 ^ 32) [] with window := 0 }, data := some p } := by
    simp [GoStream.exec, GoStream.chunk, GoStream.writeNext, newStream, long]
  have reads : GoStream.read (2 ^ 31) (2 ^ 32) { newStream (2 ^ 32) [] with rbuf := p } =
      some
        { stream := newStream (2 ^ 32) []
          result := .bytes p
          grant := 2 ^ 32 } := by
    simp [GoStream.read, newStream, nonempty, long]
  obtain ⟨l₁, wrote, left⟩ := left.write rfl p
  obtain ⟨l₂, locked, left⟩ := left.step 1 rfl writes
  obtain ⟨l₃, sent, left⟩ := left.step 1 rfl sends
  obtain ⟨r₁, heard, right⟩ := right.data p
  have joins : (newStream (2 ^ 32) []).exec (2 ^ 32) false (.onData p) =
      some { stream := { newStream (2 ^ 32) [] with rbuf := p } } := by
    simp [GoStream.exec, newStream]
  obtain ⟨r₂, took, right⟩ := right.stepLoop joins rfl rfl
  obtain ⟨r₃, read, right⟩ := right.read rfl reads (by norm_num)
  have end₁ := run.next (.leftAct (goParty_act wrote) (fits_unbounded ..))
  have end₂ := end₁.next (.leftAct (goParty_act locked) (fits_unbounded ..))
  have end₃ := end₂.next (.leftAct (goParty_act sent) (fits_unbounded ..))
  have inChannel : opened.toRight ++ [] ++ [] ++ [encodeFrame .fData 1 p] =
      encodeFrame .fData 1 p :: [] := by simp [toRight]
  have arrive : goParty.receive opened.right (encodeFrame .fData 1 p) [] r₁ := by
    simp [goParty, Machine.party, goMachine, heard]
  have end₄ := end₃.next (.rightReceive inChannel arrive (fits_unbounded ..))
  have end₅ := end₄.next (.rightAct (goParty_act took) (fits_unbounded ..))
  have end₆ := end₅.next (.rightAct (goParty_act read) (fits_unbounded ..))
  refine ⟨_, _, end₆, ?_, ?_, ?_⟩
  · simp [Strand.Torn, Strand.ClosedOnce, Endpoint.strand, left.alive, left.handle, newStream]
  · simp [Strand.Torn, Strand.ClosedOnce, Endpoint.strand, right.alive, right.handle,
      newStream]
  · rintro ⟨sum, -, -, -⟩
    simp [dataInFlight, creditInFlight, Strand.view, Strand.load, Strand.goroutines,
      Strand.arriving, Endpoint.strand, left.handle, right.handle, left.loop, left.threads,
      right.loop, right.threads, toLeft, newStream, Task.concerns, FrameType.OfStream,
      Task.granting] at sum

end HelixKit.Stream
