/-
Purpose: Both executors evaluate the nodes in the order of the plan, and the durable one,
  however it is interrupted and replayed, does what the inline one does.
Trusted boundary: none
Main exports: workflow_replays
-/
import HelixKit.Backend.WorkflowRun

namespace HelixKit.Backend

open HelixKit.Precedence
open HelixKit.Replay

/-! ### Steps -/

theorem Traced.andThen_ok {α β : Type} {first : Traced α} {next : α → Traced β} {value : α}
    (result : first.2 = .ok value) :
    first.andThen next = (first.1 ++ (next value).1, (next value).2) := by
  simp [Traced.andThen, result]

theorem Traced.andThen_error {α β : Type} {first : Traced α} {next : α → Traced β}
    {message : JsString} (result : first.2 = .error message) :
    first.andThen next = (first.1, .error message) := by
  simp [Traced.andThen, result]

theorem Traced.andThen_congr {α β : Type} {first : Traced α} {next next' : α → Traced β}
    (same : ∀ value, first.2 = .ok value → next value = next' value) :
    first.andThen next = first.andThen next' := by
  cases result : first.2 with
  | error message => rw [Traced.andThen_error result, Traced.andThen_error result]
  | ok value => rw [Traced.andThen_ok result, Traced.andThen_ok result, same value result]

theorem Traced.andThen_mapValue {α β : Type} (first : Traced α) (value : α → JsValue)
    (next : JsValue → Traced β) :
    (first.mapValue value).andThen next = first.andThen fun result => next (value result) := by
  obtain ⟨evaluations, result⟩ := first
  cases result <;> rfl

theorem stepRun_once (id : JsString) (handler : Traced JsValue) (next : JsValue → DurableRun) :
    (stepRun id handler next).once = handler.andThen fun value => (next value).once := by
  obtain ⟨evaluations, result⟩ := handler
  cases result <;> rfl

theorem stepRun_lossless {id : JsString} {handler : Traced JsValue} {next : JsValue → DurableRun}
    (kept : ∀ value, handler.2 = .ok value →
      next value.json = next value ∧ (next value).Lossless JsValue.json) :
    (stepRun id handler next).Lossless JsValue.json := by
  obtain ⟨evaluations, result⟩ := handler
  cases result with
  | error message => trivial
  | ok value => exact kept value rfl

theorem recordSkipped_once (deps : WorkflowDeps) :
    (recordSkipped deps).once = ([], (deps.writeWorkflowResult .skipped).map fun _ => .skipped) := by
  rw [recordSkipped, stepRun_once]
  cases deps.writeWorkflowResult .skipped <;> rfl

@[simp] theorem ChainResult.value_outputs (chain : ChainResult) :
    chain.value.get (js "outputs") = .object chain.outputs.own := rfl

@[simp] theorem ChainResult.value_halted (chain : ChainResult) :
    chain.value.get (js "halted") = .boolean chain.halted := rfl

/-! ### One run -/

/-- The same dependencies without the mode in which a model is asked. -/
def WorkflowDeps.blocking (deps : WorkflowDeps) : WorkflowDeps :=
  { deps with llmMode := .blocking }

theorem executeNode_blocking (graph : WorkflowGraph) (deps : WorkflowDeps) (node : WorkflowNode)
    (results : JsObject) :
    executeNode graph deps.blocking node results = executeNode graph deps node results := rfl

theorem executeChain_blocking (graph : WorkflowGraph) (deps : WorkflowDeps)
    (nodes : List WorkflowNode) (results : JsObject) :
    executeChain graph deps.blocking nodes results = executeChain graph deps nodes results := by
  have loop : ∀ results outputs,
      chainFrom graph deps.blocking nodes results outputs = chainFrom graph deps nodes results outputs := by
    induction nodes with
    | nil => intro results outputs; rfl
    | cons node rest ih =>
      intro results outputs
      simp only [chainFrom, executeNode_blocking, ih]
  exact loop results.spread {}

/-- Without interruption and without the model, the durable executor is the inline one. -/
theorem stepsFrom_once (graph : WorkflowGraph) (deps : WorkflowDeps) {units : List WorkflowUnit}
    (planned : ∀ unit ∈ units, unit.Planned) (results : JsObject) :
    (stepsFrom graph deps.blocking units results).once = directFrom graph deps units results := by
  induction units generalizing results with
  | nil => rfl
  | cons unit rest ih =>
    have later := ih fun unit member => planned unit (List.mem_cons_of_mem _ member)
    cases planned unit List.mem_cons_self with
    | async node =>
      have mode : ¬ (node.type = js "llm-summarize" ∧ deps.blocking.llmMode = .infer) := by
        rintro ⟨-, infer⟩
        cases infer
      simp only [stepsFrom, directFrom, if_neg mode, stepRun_once, Traced.andThen_mapValue,
        executeNode_blocking, later]
    | chain nodes =>
      simp only [stepsFrom, directFrom, stepRun_once, Traced.andThen_mapValue,
        ChainResult.value_outputs, ChainResult.value_halted, executeChain_blocking]
      apply Traced.andThen_congr
      intro chain _
      by_cases halted : chain.halted = true
      · simp [JsValue.isTrue, halted, recordSkipped_once, WorkflowDeps.blocking]
      · simp [JsValue.isTrue, halted, later]

/-- An output that is stored as JSON comes back the same. -/
def WorkflowDeps.Stable (deps : WorkflowDeps) : Prop :=
  ∀ type handler, deps.handlers type = some handler →
    ∀ inputs output, handler inputs = .ok output → (JsValue.object output).Stable

variable {graph : WorkflowGraph} {deps : WorkflowDeps}

theorem executeNode_stable (stable : deps.Stable)
    {node : WorkflowNode} {results : JsObject} {output : Fields}
    (result : (executeNode graph deps node results).2 = .ok output) :
    (JsValue.object output).Stable := by
  unfold executeNode at result
  split at result
  · cases result
  next handler registered =>
    exact stable node.type handler registered _ output result

/-- A chain puts outputs of its nodes beside those that were there. -/
theorem chainFrom_stable (stable : deps.Stable)
    {nodes : List WorkflowNode} {results outputs : JsObject} {chain : ChainResult}
    (start : ∀ field ∈ outputs.own, field.2 ≠ .undefined ∧ field.2.Stable)
    (result : (chainFrom graph deps nodes results outputs).2 = .ok chain) :
    ∀ field ∈ chain.outputs.own, field.2 ≠ .undefined ∧ field.2.Stable := by
  induction nodes generalizing results outputs with
  | nil =>
    cases result
    exact start
  | cons node rest ih =>
    unfold chainFrom at result
    cases executed : (executeNode graph deps node results).2 with
    | error message =>
      rw [Traced.andThen_error executed] at result
      cases result
    | ok output =>
      rw [Traced.andThen_ok executed] at result
      have grown : ∀ field ∈ (outputs.set node.id (.object output)).own,
          field.2 ≠ .undefined ∧ field.2.Stable := by
        intro field member
        rcases JsObject.mem_set member with rfl | old
        · exact ⟨by simp, executeNode_stable stable executed⟩
        · exact start field old
      by_cases halted : halts output
      · simp only [if_pos halted] at result
        cases result
        exact grown
      · simp only [if_neg halted] at result
        exact ih grown result

/-- What a chain returned is the same again when it was stored. -/
theorem executeChain_stable (stable : deps.Stable)
    {nodes : List WorkflowNode} {results : JsObject} {chain : ChainResult}
    (result : (executeChain graph deps nodes results).2 = .ok chain) : chain.value.Stable := by
  have fields := chainFrom_stable stable (by simp) result
  simp [JsValue.Stable, ChainResult.value, JsValue.json, jsonFields, jsonFields_stable fields]

theorem Traced.mapValue_ok {α : Type} {traced : Traced α} {value : α → JsValue} {stored : JsValue}
    (result : (traced.mapValue value).2 = .ok stored) :
    ∃ inner, traced.2 = .ok inner ∧ stored = value inner := by
  obtain ⟨evaluations, inner⟩ := traced
  cases inner with
  | error message => cases result
  | ok inner =>
    cases result
    exact ⟨inner, rfl, rfl⟩

/-- The durable executor goes on from a stored value as from the value itself. -/
theorem stepsFrom_lossless (stable : deps.Stable)
    (blocking : deps.llmMode = .blocking) {units : List WorkflowUnit}
    (planned : ∀ unit ∈ units, unit.Planned) (results : JsObject) :
    (stepsFrom graph deps units results).Lossless JsValue.json := by
  induction units generalizing results with
  | nil => trivial
  | cons unit rest ih =>
    have later := ih fun unit member => planned unit (List.mem_cons_of_mem _ member)
    cases planned unit List.mem_cons_self with
    | async node =>
      simp only [stepsFrom, blocking, reduceCtorEq, and_false, if_false]
      apply stepRun_lossless
      intro value result
      obtain ⟨output, executed, rfl⟩ := Traced.mapValue_ok result
      rw [executeNode_stable stable executed]
      exact ⟨rfl, later _⟩
    | chain nodes =>
      simp only [stepsFrom]
      apply stepRun_lossless
      intro value result
      obtain ⟨chain, executed, rfl⟩ := Traced.mapValue_ok result
      rw [executeChain_stable stable executed]
      refine ⟨rfl, ?_⟩
      split
      · exact stepRun_lossless fun value _ => ⟨rfl, trivial⟩
      · exact later _

/-! ### The order of the evaluations -/

/-- The evaluations are those of the nodes from the first one on, and of all of them when
the value is as it is after all. -/
def Traced.Goes {α : Type} (traced : Traced α) (nodes : List WorkflowNode) (After : α → Prop) : Prop :=
  traced.1.map (·.node) <+: nodes ∧
    ∀ value, traced.2 = .ok value → After value → traced.1.map (·.node) = nodes

/-- The first part goes through its nodes, then the second through its own unless it
evaluates nothing. -/
theorem Traced.Goes.andThen {α β : Type} {first : Traced α} {next : α → Traced β}
    {front rest : List WorkflowNode} {After : α → Prop} {End : β → Prop}
    (start : first.Goes front After)
    (goes : ∀ value, first.2 = .ok value →
      After value ∧ (next value).Goes rest End ∨
        (next value).1 = [] ∧ ∀ ending, (next value).2 = .ok ending → ¬ End ending) :
    (first.andThen next).Goes (front ++ rest) End := by
  cases result : first.2 with
  | error message =>
    rw [Traced.andThen_error result]
    exact ⟨start.1.trans (List.prefix_append front rest), fun ending ended => by cases ended⟩
  | ok value =>
    rw [Traced.andThen_ok result]
    rcases goes value result with ⟨after, more, whole⟩ | ⟨nothing, stops⟩
    · have all := start.2 value result after
      refine ⟨by simpa [all] using more, fun ending ended last => ?_⟩
      simp [all, whole ending ended last]
    · refine ⟨?_, fun ending ended last => absurd last (stops ending ended)⟩
      simpa [nothing] using start.1.trans (List.prefix_append front rest)

theorem executeNode_goes (graph : WorkflowGraph) (deps : WorkflowDeps) (node : WorkflowNode)
    (results : JsObject) :
    (executeNode graph deps node results).Goes [node] fun _ => True := by
  unfold executeNode
  split
  · exact ⟨List.nil_prefix, fun output result => by cases result⟩
  · exact ⟨List.prefix_rfl, fun output _ _ => rfl⟩

theorem chainFrom_goes (graph : WorkflowGraph) (deps : WorkflowDeps) (nodes : List WorkflowNode)
    (results outputs : JsObject) :
    (chainFrom graph deps nodes results outputs).Goes nodes fun chain => chain.halted = false := by
  induction nodes generalizing results outputs with
  | nil => exact ⟨List.prefix_rfl, fun chain _ _ => rfl⟩
  | cons node rest ih =>
    unfold chainFrom
    rw [← List.singleton_append]
    apply (executeNode_goes graph deps node results).andThen
    intro output executed
    by_cases halted : halts output
    · simp [halted]
    · simpa [halted] using Or.inl (ih _ _)

/-- The nodes are evaluated in the order of the units, and all of them when the run is
completed. -/
theorem stepsFrom_goes (graph : WorkflowGraph) (deps : WorkflowDeps) {units : List WorkflowUnit}
    (planned : ∀ unit ∈ units, unit.Planned) (results : JsObject) :
    Traced.Goes (stepsFrom graph deps units results).once (units.flatMap (·.nodes))
      fun status => status = .completed := by
  induction units generalizing results with
  | nil => exact ⟨List.prefix_rfl, fun _ _ _ => rfl⟩
  | cons unit rest ih =>
    have later := ih fun unit member => planned unit (List.mem_cons_of_mem _ member)
    rw [List.flatMap_cons]
    cases planned unit List.mem_cons_self with
    | async node =>
      simp only [stepsFrom]
      split
      · rw [stepRun_once]
        have asked : Traced.Goes ([.infer node], deps.infer node) [node] fun _ => True :=
          ⟨List.prefix_rfl, fun _ _ _ => rfl⟩
        exact asked.andThen fun response _ => .inl ⟨trivial, later _⟩
      · rw [stepRun_once, Traced.andThen_mapValue]
        apply (executeNode_goes graph deps node results).andThen
        exact fun output _ => .inl ⟨trivial, later _⟩
    | chain nodes =>
      simp only [stepsFrom, stepRun_once, Traced.andThen_mapValue]
      apply (chainFrom_goes graph deps nodes results.spread {}).andThen
      intro chain _
      cases going : chain.halted with
      | true =>
        right
        simp only [ChainResult.value_halted, going, JsValue.isTrue, if_true, recordSkipped_once]
        refine ⟨trivial, fun status ended completed => ?_⟩
        subst completed
        cases written : deps.writeWorkflowResult .skipped <;> simp [written, Except.map] at ended
      | false =>
        left
        simpa [going, JsValue.isTrue] using later _

/-! ### Runs -/

/-- A run evaluates a node at most once, after all its predecessors, and every node if it
is completed. -/
structure Orderly (graph : WorkflowGraph) (run : Traced WorkflowStatus) : Prop where
  once : (run.1.map (·.node.id)).Nodup
  ordered : Ordered graph.Before (run.1.map (·.node.id))
  all : run.2 = .ok .completed → (run.1.map (·.node)).Perm graph.nodes

theorem Orderly.of_goes (wf : graph.WellFormed) {units : List WorkflowUnit}
    (planned : graph.planUnits = .ok units) {run : Traced WorkflowStatus}
    (goes : run.Goes (units.flatMap (·.nodes)) fun status => status = .completed) :
    Orderly graph run := by
  obtain ⟨perm, ordered⟩ := graph.planUnits_nodes wf planned
  obtain ⟨more, whole⟩ := goes.1
  have ids : (run.1.map (·.node.id)) = (run.1.map (·.node)).map (·.id) := by simp
  have nodup : ((units.flatMap (·.nodes)).map (·.id)).Nodup :=
    (perm.map WorkflowNode.id).nodup_iff.mpr wf.distinct
  refine ⟨?_, ?_, fun completed => ?_⟩
  · rw [ids]
    exact (goes.1.sublist.map (·.id)).nodup nodup
  · rw [← whole, List.map_append] at ordered
    rw [ids]
    exact ordered.of_append
  · rw [goes.2 .completed completed rfl]
    exact perm

/-- What the attempts come to so far, beside a run that is not interrupted: no node was
evaluated with other inputs, nor before its predecessors; and if the last attempt ended,
it did so as that run, all of whose evaluations have been made. -/
structure Matches (graph : WorkflowGraph) (run : Traced WorkflowStatus)
    (outcome : Session JsString Evaluation JsValue × Option (Except JsString WorkflowStatus)) :
    Prop where
  inputs : outcome.1.events ⊆ run.1
  ordered : Ordered graph.Before (outcome.1.events.map (·.node.id))
  ends : ∀ result, outcome.2 = some result → result = run.2 ∧ run.1 ⊆ outcome.1.events

theorem Matches.of_agrees {program : DurableRun}
    (orderly : Orderly graph program.once) {needed fuel : Nat}
    {outcome : Session JsString Evaluation JsValue × Option (Except JsString WorkflowStatus)}
    (agrees : Agrees JsValue.json program.calls program.once.2 needed fuel outcome) :
    Matches graph program.once outcome := by
  have resumed := agrees.sound.resumed
  rw [← program.once_events] at resumed
  refine ⟨resumed.subset, resumed.ordered orderly.ordered, fun result ended => ?_⟩
  rw [program.once_events]
  exact agrees.ends result ended

/-- The inline run is a run through durable steps without the model. -/
theorem direct_once (graph : WorkflowGraph) (deps : WorkflowDeps) :
    runWorkflowDirect graph deps = (runWorkflowWithSteps graph deps.blocking).once := by
  unfold runWorkflowDirect runWorkflowWithSteps
  cases planned : graph.planUnits with
  | error message => rfl
  | ok units => exact (stepsFrom_once graph deps (graph.planUnits_planned planned) {}).symm

theorem steps_orderly (wf : graph.WellFormed) (deps : WorkflowDeps) :
    Orderly graph (runWorkflowWithSteps graph deps).once := by
  unfold runWorkflowWithSteps
  cases planned : graph.planUnits with
  | error message => exact ⟨List.nodup_nil, Ordered.nil, fun completed => by cases completed⟩
  | ok units =>
    exact .of_goes wf planned (stepsFrom_goes graph deps (graph.planUnits_planned planned) {})

theorem steps_lossless (graph : WorkflowGraph) (stable : deps.Stable)
    (blocking : deps.llmMode = .blocking) :
    (runWorkflowWithSteps graph deps).Lossless JsValue.json := by
  unfold runWorkflowWithSteps
  cases planned : graph.planUnits with
  | error message => trivial
  | ok units => exact stepsFrom_lossless stable blocking (graph.planUnits_planned planned) {}

/-- Planning throws exactly on a cycle, and then nothing is evaluated. Otherwise the units
hold every node once, and a run of either executor evaluates the nodes in order. Where
outputs survive being stored and no model is asked, attempts at a durable run, wherever
each was interrupted, come to what an inline run does, and one that goes on long enough
ends. -/
theorem workflow_replays {graph : WorkflowGraph} (wf : graph.WellFormed) (deps : WorkflowDeps) :
    (graph.planUnits = .error cycleError ↔ Cyclic graph.Before) ∧
    (Cyclic graph.Before →
      runWorkflowDirect graph deps = ([], .error cycleError) ∧
        runWorkflowWithSteps graph deps = .done (.error cycleError)) ∧
    (¬ Cyclic graph.Before → ∃ units, graph.planUnits = .ok units ∧
      (units.flatMap (·.nodes)).Perm graph.nodes ∧
        Orderly graph (runWorkflowDirect graph deps) ∧
        Orderly graph (runWorkflowWithSteps graph deps).once) ∧
    (deps.Stable → deps.llmMode = .blocking → ∃ enough, ∀ fuels fuel,
      let run := runWorkflowWithSteps graph deps
      let outcome := run.restart JsValue.json (run.attempts JsValue.json fuels) fuel
      Matches graph (runWorkflowDirect graph deps) outcome ∧
        (enough ≤ fuel → outcome.2.isSome)) := by
  have throws := graph.planUnits_throws wf
  refine ⟨throws, fun cycle => ?_, fun acyclic => ?_, fun stable blocking => ?_⟩
  · have planned := throws.mpr cycle
    simp [runWorkflowDirect, runWorkflowWithSteps, planned]
  · have direct := steps_orderly wf deps.blocking
    rw [← direct_once] at direct
    obtain ⟨units, planned⟩ := graph.planUnits_ok wf acyclic
    exact ⟨units, planned, (graph.planUnits_nodes wf planned).1, direct, steps_orderly wf deps⟩
  · have same : deps.blocking = deps := by
      rw [WorkflowDeps.blocking, ← blocking]
    rw [direct_once, same]
    refine ⟨cost (runWorkflowWithSteps graph deps).calls, fun fuels fuel => ?_⟩
    have agrees := Program.attempts_agree (steps_lossless graph stable blocking) fuels fuel
    refine ⟨.of_agrees (steps_orderly wf deps) agrees, fun enough => ?_⟩
    by_contra stopped
    have short := agrees.interrupted (Option.not_isSome_iff_eq_none.mp stopped)
    omega

/-- Outputs as those of the nodes of the device workflow, when the gate is passed. -/
def deviceOutput (type : JsString) : Fields :=
  if type = js "trigger" then [(js "deviceId", .string (js "d1"))]
  else if type = js "threshold-gate" then [(js "passed", .boolean true), (js "halt", .boolean false)]
  else [(js "delivered", .boolean true)]

def deviceDeps : WorkflowDeps where
  handlers := fun type => some fun _ => .ok (deviceOutput type)
  infer := fun _ => .ok .undefined
  writeWorkflowResult := fun _ => .ok ()

theorem deviceDeps_stable : deviceDeps.Stable := by
  intro type handler registered inputs output result
  cases registered
  cases result
  unfold deviceOutput
  split
  · rfl
  · split <;> rfl

/-- Three attempts at the workflow that are interrupted, and one that completes it. -/
theorem workflow_replays_device :
    let run := runWorkflowWithSteps deviceEventWorkflow deviceDeps
    let outcome := run.restart JsValue.json (run.attempts JsValue.json [2, 4, 1]) 9
    outcome.2 = some (.ok .completed) ∧ outcome.1.events.length = 9 ∧
      Matches deviceEventWorkflow (runWorkflowDirect deviceEventWorkflow deviceDeps) outcome := by
  obtain ⟨enough, all⟩ :=
    (workflow_replays deviceEventWorkflow_wellFormed deviceDeps).2.2.2 deviceDeps_stable rfl
  exact ⟨by rfl, by rfl, (all [2, 4, 1] 9).1⟩

end HelixKit.Backend
