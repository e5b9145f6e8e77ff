/-
Purpose: The two executors of a workflow: inline, and through durable steps.
Trusted boundary: none
-/
import HelixKit.Backend.WorkflowPlan
import HelixKit.Lib.Replay

namespace HelixKit.Backend

open HelixKit.Replay

inductive WorkflowLlmMode where
  | blocking
  | infer
deriving Repr, DecidableEq

inductive WorkflowStatus where
  | completed
  | skipped
deriving Repr, DecidableEq

/-- A handler with the data and the dependencies of the run, as a function of its inputs.
Its output is a plain object. -/
abbrev NodeHandler := JsObject → Except JsString Fields

/-- What a run has from outside. `infer` gives the response to a node's request, and
`writeWorkflowResult` whether the record of the run could be written. -/
structure WorkflowDeps where
  handlers : JsString → Option NodeHandler
  llmMode : WorkflowLlmMode := .blocking
  infer : WorkflowNode → Except JsString JsValue
  writeWorkflowResult : WorkflowStatus → Except JsString Unit

/-- What is done for a node: its handler is called, or a model is asked. -/
inductive Evaluation where
  | handle (node : WorkflowNode) (inputs : JsObject)
  | infer (node : WorkflowNode)
deriving Repr

def Evaluation.node : Evaluation → WorkflowNode
  | .handle node _ => node
  | .infer node => node

/-- The evaluations on the way to a value or an exception. -/
abbrev Traced (α : Type) := List Evaluation × Except JsString α

def Traced.andThen {α β : Type} (first : Traced α) (next : α → Traced β) : Traced β :=
  match first.2 with
  | .error message => (first.1, .error message)
  | .ok value => (first.1 ++ (next value).1, (next value).2)

/-! ### Nodes and chains -/

def collectInputs (graph : WorkflowGraph) (nodeId : JsString) (results : JsObject) : JsObject :=
  graph.edges.foldl
    (fun inputs edge =>
      if edge.target = nodeId then inputs.assign (results.get edge.source) else inputs)
    {}

def executeNode (graph : WorkflowGraph) (deps : WorkflowDeps) (node : WorkflowNode)
    (results : JsObject) : Traced Fields :=
  match deps.handlers node.type with
  | none => ([], .error (js "no handler registered for node type \"" ++ node.type ++ js "\""))
  | some handler =>
    let inputs := collectInputs graph node.id results
    ([.handle node inputs], handler inputs)

/-- `output.halt === true`. -/
def halts (output : Fields) : Bool :=
  (JsValue.object output).get (js "halt") |>.isTrue

/-- What `executeChain` returns. -/
structure ChainResult where
  outputs : JsObject
  halted : Bool

/-- The loop of `executeChain`; `results` are its local ones. -/
def chainFrom (graph : WorkflowGraph) (deps : WorkflowDeps) :
    List WorkflowNode → JsObject → JsObject → Traced ChainResult
  | [], _, outputs => ([], .ok ⟨outputs, false⟩)
  | node :: rest, results, outputs =>
    (executeNode graph deps node results).andThen fun output =>
      let outputs := outputs.set node.id (.object output)
      if halts output then ([], .ok ⟨outputs, true⟩)
      else chainFrom graph deps rest (results.set node.id (.object output)) outputs

def executeChain (graph : WorkflowGraph) (deps : WorkflowDeps) (nodes : List WorkflowNode)
    (results : JsObject) : Traced ChainResult :=
  chainFrom graph deps nodes results.spread {}

/-! ### Inline -/

/-- The loop of `runWorkflowDirect`. -/
def directFrom (graph : WorkflowGraph) (deps : WorkflowDeps) :
    List WorkflowUnit → JsObject → Traced WorkflowStatus
  | [], _ => ([], .ok .completed)
  | unit :: rest, results =>
    match unit.async, unit.nodes with
    | true, node :: _ =>
      (executeNode graph deps node results).andThen fun output =>
        directFrom graph deps rest (results.set node.id (.object output))
    | _, nodes =>
      (executeChain graph deps nodes results).andThen fun chain =>
        if chain.halted then
          ([], (deps.writeWorkflowResult .skipped).map fun _ => .skipped)
        else directFrom graph deps rest (results.assign (.object chain.outputs.own))

def runWorkflowDirect (graph : WorkflowGraph) (deps : WorkflowDeps) : Traced WorkflowStatus :=
  match graph.planUnits with
  | .error message => ([], .error message)
  | .ok units => directFrom graph deps units {}

/-! ### Through durable steps -/

/-- A run as a program over `step.run`, whose steps have strings as ids. -/
abbrev DurableRun := Program JsString Evaluation JsValue JsString WorkflowStatus

def stepRun (id : JsString) (handler : Traced JsValue) (next : JsValue → DurableRun) : DurableRun :=
  .step id handler.1 handler.2 next

/-- `{ summary, inferred: true }` for a response of the model. -/
def inferredSummary (response : JsValue) : JsValue :=
  let choice := (response.get (js "choices")).get (js "0")
  let content := (choice.get (js "message")).get (js "content")
  let summary :=
    match content with
    | .undefined | .null => .string (js "summarized")
    | content => content
  .object [(js "summary", summary), (js "inferred", .boolean true)]

/-- The node ids of a chain, joined with "+". -/
def chainLabel (nodes : List WorkflowNode) : JsString :=
  (js "+").intercalate (nodes.map (·.id))

/-- The object `{ outputs, halted }`, of which `outputs` has its own properties. -/
def ChainResult.value (chain : ChainResult) : JsValue :=
  .object [(js "outputs", .object chain.outputs.own), (js "halted", .boolean chain.halted)]

def Traced.mapValue {α : Type} (traced : Traced α) (value : α → JsValue) : Traced JsValue :=
  (traced.1, traced.2.map value)

/-- How a halted run ends. -/
def recordSkipped (deps : WorkflowDeps) : DurableRun :=
  stepRun (js "record-skipped")
    ([], (deps.writeWorkflowResult .skipped).map fun _ => .object [(js "skipped", .boolean true)])
    fun _ => .done (.ok .skipped)

/-- The loop of `runWorkflowWithSteps`. -/
def stepsFrom (graph : WorkflowGraph) (deps : WorkflowDeps) :
    List WorkflowUnit → JsObject → DurableRun
  | [], _ => .done (.ok .completed)
  | unit :: rest, results =>
    match unit.async, unit.nodes with
    | true, node :: _ =>
      if node.type = js "llm-summarize" ∧ deps.llmMode = .infer then
        stepRun (js "node-" ++ node.id) ([.infer node], deps.infer node) fun response =>
          stepsFrom graph deps rest (results.set node.id (inferredSummary response))
      else
        stepRun (js "node-" ++ node.id)
          ((executeNode graph deps node results).mapValue .object) fun output =>
            stepsFrom graph deps rest (results.set node.id output)
    | _, nodes =>
      stepRun (js "chain-" ++ chainLabel nodes)
        ((executeChain graph deps nodes results).mapValue ChainResult.value) fun chain =>
          let results := results.assign (chain.get (js "outputs"))
          if (chain.get (js "halted")).isTrue then recordSkipped deps
          else stepsFrom graph deps rest results

def runWorkflowWithSteps (graph : WorkflowGraph) (deps : WorkflowDeps) : DurableRun :=
  match graph.planUnits with
  | .error message => .done (.error message)
  | .ok units => stepsFrom graph deps units {}

end HelixKit.Backend
