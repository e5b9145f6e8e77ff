/-
Purpose: The plan of a workflow: its nodes in an order in which each comes after its
  predecessors, and the units that are executed one after the other.
Trusted boundary: none
-/
import HelixKit.Backend.JsValue
import HelixKit.Lib.Precedence
import Mathlib.Logic.Function.Basic
import Mathlib.Data.List.Perm.Subperm
import Mathlib.Data.List.Count

namespace HelixKit.Backend

open HelixKit.Precedence

/-! ### Graphs -/

inductive WorkflowNodeKind where
  | sync
  | async
deriving Repr, DecidableEq

structure WorkflowNode where
  id : JsString
  type : JsString
  kind : WorkflowNodeKind
deriving Repr, DecidableEq

structure WorkflowEdge where
  source : JsString
  target : JsString
deriving Repr, DecidableEq

structure WorkflowGraph where
  nodes : List WorkflowNode
  edges : List WorkflowEdge
deriving Repr, DecidableEq

def WorkflowGraph.ids (graph : WorkflowGraph) : List JsString :=
  graph.nodes.map (·.id)

/-- There is an edge from the one to the other. -/
def WorkflowGraph.Before (graph : WorkflowGraph) (source target : JsString) : Prop :=
  ⟨source, target⟩ ∈ graph.edges

/-- The node ids are distinct and the edges between nodes. -/
structure WorkflowGraph.WellFormed (graph : WorkflowGraph) : Prop where
  distinct : graph.ids.Nodup
  sources : ∀ edge ∈ graph.edges, edge.source ∈ graph.ids
  targets : ∀ edge ∈ graph.edges, edge.target ∈ graph.ids

def syncNode (id type : JsString) : WorkflowNode := ⟨id, type, .sync⟩

def asyncNode (id type : JsString) : WorkflowNode := ⟨id, type, .async⟩

/-- `DEVICE_EVENT_WORKFLOW`. -/
def deviceEventWorkflow : WorkflowGraph where
  nodes := [
    syncNode (js "trigger") (js "trigger"),
    syncNode (js "normalize") (js "normalize"),
    syncNode (js "gate") (js "threshold-gate"),
    asyncNode (js "query-events") (js "query-device-events"),
    asyncNode (js "summarize") (js "llm-summarize"),
    asyncNode (js "notify") (js "send-notification")]
  edges := [
    ⟨js "trigger", js "normalize"⟩,
    ⟨js "normalize", js "gate"⟩,
    ⟨js "gate", js "query-events"⟩,
    ⟨js "query-events", js "summarize"⟩,
    ⟨js "summarize", js "notify"⟩]

theorem deviceEventWorkflow_wellFormed : deviceEventWorkflow.WellFormed where
  distinct := by decide
  sources := by decide
  targets := by decide

/-! ### The order -/

/-- The variables of `topologicalOrder`. An id that `indegree` has no entry for counts
as 0. -/
structure Sorting where
  indegree : JsString → Int
  queue : List JsString
  order : List WorkflowNode := []

/-- `byId.get`: a later node takes the entry of an earlier one. -/
def WorkflowGraph.byId (graph : WorkflowGraph) (id : JsString) : Option WorkflowNode :=
  graph.nodes.reverse.find? (·.id = id)

def WorkflowGraph.indegree (graph : WorkflowGraph) : JsString → Int :=
  graph.edges.foldl
    (fun indegree edge => Function.update indegree edge.target (indegree edge.target + 1))
    fun _ => 0

def WorkflowGraph.sorting (graph : WorkflowGraph) : Sorting where
  indegree := graph.indegree
  queue := (graph.nodes.filter fun node => graph.indegree node.id = 0).map (·.id)

/-- The inner loop at an edge. -/
def Sorting.relax (id : JsString) (sorting : Sorting) (edge : WorkflowEdge) : Sorting :=
  if edge.source = id then
    let next := sorting.indegree edge.target - 1
    { sorting with
      indegree := Function.update sorting.indegree edge.target next
      queue := if next = 0 then sorting.queue ++ [edge.target] else sorting.queue }
  else sorting

/-- The outer loop, once. -/
def Sorting.next (graph : WorkflowGraph) (sorting : Sorting) : Sorting :=
  match sorting.queue with
  | [] => sorting
  | id :: rest =>
    graph.edges.foldl (Sorting.relax id)
      { sorting with
        queue := rest
        order := sorting.order ++ (graph.byId id).toList }

/-- The outer loop. The rounds are as many as ids can be queued: the nodes at the start
and one for each edge. -/
def WorkflowGraph.sorted (graph : WorkflowGraph) : Sorting :=
  (Sorting.next graph)^[graph.nodes.length + graph.edges.length] graph.sorting

def cycleError : JsString := js "workflow graph has a cycle"

def WorkflowGraph.topologicalOrder (graph : WorkflowGraph) : Except JsString (List WorkflowNode) :=
  if graph.sorted.order.length = graph.nodes.length then .ok graph.sorted.order
  else .error cycleError

/-! ### The units -/

structure WorkflowUnit where
  async : Bool
  nodes : List WorkflowNode
deriving Repr, DecidableEq

/-- The unit of the sync nodes gathered so far. -/
def chainUnit : List WorkflowNode → List WorkflowUnit
  | [] => []
  | chain => [⟨false, chain⟩]

/-- The loop of `planUnits`, with the sync nodes gathered so far. -/
def groupUnits : List WorkflowNode → List WorkflowNode → List WorkflowUnit
  | chain, [] => chainUnit chain
  | chain, node :: rest =>
    match node.kind with
    | .async => chainUnit chain ++ ⟨true, [node]⟩ :: groupUnits [] rest
    | .sync => groupUnits (chain ++ [node]) rest

def WorkflowGraph.planUnits (graph : WorkflowGraph) : Except JsString (List WorkflowUnit) :=
  graph.topologicalOrder.map (groupUnits [])

/-! ### Incoming edges -/

/-- The edges into a node whose source is not done. -/
def WorkflowGraph.waiting (graph : WorkflowGraph) (done : List JsString) (id : JsString) : Nat :=
  graph.edges.countP fun edge => edge.target = id ∧ edge.source ∉ done

theorem foldl_indegree (edges : List WorkflowEdge) (start : JsString → Int) (id : JsString) :
    edges.foldl
      (fun indegree edge => Function.update indegree edge.target (indegree edge.target + 1))
      start id = start id + edges.countP fun edge => edge.target = id := by
  induction edges generalizing start with
  | nil => simp
  | cons edge rest ih =>
    rw [List.foldl_cons, ih, List.countP_cons]
    by_cases same : edge.target = id
    · simp [same]
      omega
    · simp [same, Function.update_of_ne (Ne.symm same)]

theorem WorkflowGraph.indegree_waiting (graph : WorkflowGraph) (id : JsString) :
    graph.indegree id = graph.waiting [] id := by
  rw [WorkflowGraph.indegree, foldl_indegree]
  simp [WorkflowGraph.waiting]

variable {graph : WorkflowGraph} {id : JsString}

/-- A node with no edge from what is not done has all before it done. -/
theorem WorkflowGraph.waiting_eq_zero {done : List JsString} :
    graph.waiting done id = 0 ↔ ∀ source, graph.Before source id → source ∈ done := by
  rw [WorkflowGraph.waiting, List.countP_eq_zero]
  constructor
  · intro none source edge
    by_contra undone
    exact none ⟨source, id⟩ edge (by simp [undone])
  · intro all edge member counted
    obtain ⟨rfl, undone⟩ := of_decide_eq_true counted
    exact undone (all edge.source member)

/-- The edges from one node to another. -/
def WorkflowGraph.edgesFrom (graph : WorkflowGraph) (source id : JsString) : Nat :=
  graph.edges.countP fun edge => edge.source = source ∧ edge.target = id

/-- What is done next takes its own edges away. -/
theorem WorkflowGraph.waiting_done (graph : WorkflowGraph) {done : List JsString}
    {source : JsString} (undone : source ∉ done) (id : JsString) :
    graph.waiting (done ++ [source]) id + graph.edgesFrom source id = graph.waiting done id := by
  unfold WorkflowGraph.waiting WorkflowGraph.edgesFrom
  induction graph.edges with
  | nil => simp
  | cons edge rest ih =>
    simp only [List.countP_cons]
    by_cases into : edge.target = id
    · by_cases same : edge.source = source
      · subst same
        simp [into, undone] at ih ⊢
        omega
      · by_cases old : edge.source ∈ done <;> simp [into, same, old] at ih ⊢ <;> omega
    · simp [into] at ih ⊢
      omega

/-! ### The inner loop -/

/-- An edge from the node takes one off the entry of its target. -/
theorem Sorting.relax_own {edge : WorkflowEdge} (own : edge.source = id) (sorting : Sorting) :
    sorting.relax id edge =
      { sorting with
        indegree := fun other => sorting.indegree other - if edge.target = other then 1 else 0
        queue := sorting.queue ++
          if sorting.indegree edge.target = 1 then [edge.target] else [] } := by
  have entries : Function.update sorting.indegree edge.target (sorting.indegree edge.target - 1) =
      fun other => sorting.indegree other - if edge.target = other then 1 else 0 := by
    funext other
    by_cases same : edge.target = other
    · subst same
      simp
    · simp [same, Function.update_of_ne (Ne.symm same)]
  have last : sorting.indegree edge.target - 1 = 0 ↔ sorting.indegree edge.target = 1 := by
    omega
  simp only [Sorting.relax, if_pos own, entries, last]
  by_cases one : sorting.indegree edge.target = 1 <;> simp [one]

/-- What the inner loop does for a node: every edge from it takes one off the entry of
its target, and the targets whose entry comes to 0 are queued, each once. -/
theorem relax_spec (id : JsString) (edges : List WorkflowEdge) (sorting : Sorting) :
    ∃ released : List JsString,
      edges.foldl (Sorting.relax id) sorting =
        { sorting with
          indegree := fun other => sorting.indegree other -
            edges.countP fun edge => edge.source = id ∧ edge.target = other
          queue := sorting.queue ++ released } ∧
      released.Nodup ∧
      ∀ other, other ∈ released ↔ 0 < sorting.indegree other ∧
        sorting.indegree other ≤ edges.countP fun edge => edge.source = id ∧ edge.target = other := by
  induction edges generalizing sorting with
  | nil =>
    refine ⟨[], by simp, List.nodup_nil, fun other => ?_⟩
    simp
  | cons edge rest ih =>
    by_cases own : edge.source = id
    · obtain ⟨released, result, nodup, those⟩ := ih (sorting.relax id edge)
      rw [Sorting.relax_own own] at result those
      refine ⟨(if sorting.indegree edge.target = 1 then [edge.target] else []) ++ released,
        ?_, ?_, fun other => ?_⟩
      · rw [List.foldl_cons, Sorting.relax_own own, result]
        simp only [List.append_assoc, List.countP_cons, own, true_and, decide_eq_true_eq]
        congr 1
        funext other
        split <;> simp
        omega
      · by_cases one : sorting.indegree edge.target = 1
        · have gone : edge.target ∉ released := by
            simp [those, one]
          simpa [one] using ⟨gone, nodup⟩
        · simpa [one] using nodup
      · have later := those other
        simp only [List.mem_append, later, List.countP_cons, own, true_and, decide_eq_true_eq]
        by_cases same : edge.target = other
        · subst same
          by_cases one : sorting.indegree edge.target = 1 <;> simp [one]
          omega
        · by_cases one : sorting.indegree edge.target = 1 <;> simp [one, same, Ne.symm same]
    · obtain ⟨released, result, nodup, those⟩ := ih sorting
      refine ⟨released, ?_, nodup, fun other => ?_⟩
      · rw [List.foldl_cons, Sorting.relax, if_neg own, result]
        simp [own]
      · rw [those]
        simp [own]

/-! ### The outer loop -/

/-- The ids that have left the queue. -/
def Sorting.done (sorting : Sorting) : List JsString :=
  sorting.order.map (·.id)

/-- What the outer loop keeps. The entry of a node is the number of edges that it waits
for, and it is queued when it waits for none. -/
structure Sorting.Inv (graph : WorkflowGraph) (sorting : Sorting) : Prop where
  nodup : (sorting.done ++ sorting.queue).Nodup
  entries : ∀ id, sorting.indegree id = graph.waiting sorting.done id
  reached : ∀ id, id ∈ sorting.done ++ sorting.queue ↔
    id ∈ graph.ids ∧ graph.waiting sorting.done id = 0
  ordered : Ordered graph.Before sorting.done
  nodes : ∀ node ∈ sorting.order, node ∈ graph.nodes

theorem WorkflowGraph.inv_sorting (wf : graph.WellFormed) :
    graph.sorting.Inv graph where
  nodup := by
    have part : List.Sublist
        ((graph.nodes.filter fun node => graph.indegree node.id = 0).map (·.id)) graph.ids :=
      List.filter_sublist.map _
    simpa [WorkflowGraph.sorting, Sorting.done] using part.nodup wf.distinct
  entries := graph.indegree_waiting
  reached := by
    intro id
    simp only [WorkflowGraph.sorting, Sorting.done, List.map_nil, List.nil_append, List.mem_map,
      List.mem_filter, decide_eq_true_eq, graph.indegree_waiting, WorkflowGraph.ids]
    constructor
    · rintro ⟨node, ⟨member, none⟩, rfl⟩
      exact ⟨⟨node, member, rfl⟩, by exact_mod_cast none⟩
    · rintro ⟨⟨node, member, rfl⟩, none⟩
      exact ⟨node, ⟨member, by exact_mod_cast none⟩, rfl⟩
  ordered := Ordered.nil
  nodes := by simp [WorkflowGraph.sorting]

theorem WorkflowGraph.byId_mem (member : id ∈ graph.ids) :
    ∃ node ∈ graph.nodes, node.id = id ∧ graph.byId id = some node := by
  obtain ⟨node, inside, same⟩ := List.mem_map.mp member
  have found : (graph.byId id).isSome := by
    rw [WorkflowGraph.byId, List.find?_isSome]
    exact ⟨node, List.mem_reverse.mpr inside, by simpa using same⟩
  obtain ⟨entry, result⟩ := Option.isSome_iff_exists.mp found
  refine ⟨entry, List.mem_reverse.mp (List.mem_of_find?_eq_some result), ?_, result⟩
  simpa using List.find?_some result

/-- A round of the outer loop with an id in the queue, and the ids that it releases. -/
theorem Sorting.next_eq {sorting : Sorting}
    {rest : List JsString} (head : sorting.queue = id :: rest) (known : id ∈ graph.ids) :
    ∃ node ∈ graph.nodes, node.id = id ∧ ∃ released : List JsString,
      sorting.next graph =
        { indegree := fun other => sorting.indegree other - graph.edgesFrom id other
          queue := rest ++ released
          order := sorting.order ++ [node] } ∧
      released.Nodup ∧
      ∀ other, other ∈ released ↔
        0 < sorting.indegree other ∧ sorting.indegree other ≤ graph.edgesFrom id other := by
  obtain ⟨node, inside, same, found⟩ := WorkflowGraph.byId_mem known
  obtain ⟨released, result, nodup, those⟩ := relax_spec id graph.edges
    { sorting with
      queue := rest
      order := sorting.order ++ [node] }
  refine ⟨node, inside, same, released, ?_, nodup, those⟩
  rw [Sorting.next, head]
  simp only [found, Option.toList_some]
  exact result

/-- Only a node waits for others. -/
theorem WorkflowGraph.WellFormed.waits {graph : WorkflowGraph} (wf : graph.WellFormed)
    {done : List JsString} {id : JsString} (waits : graph.waiting done id ≠ 0) : id ∈ graph.ids := by
  obtain ⟨edge, member, counted⟩ := List.countP_pos_iff.mp (Nat.pos_of_ne_zero waits)
  obtain ⟨rfl, -⟩ := of_decide_eq_true counted
  exact wf.targets edge member

theorem Sorting.next_spec (wf : graph.WellFormed) {sorting : Sorting}
    (inv : sorting.Inv graph) {rest : List JsString} (head : sorting.queue = id :: rest) :
    (sorting.next graph).Inv graph ∧ (sorting.next graph).done = sorting.done ++ [id] := by
  have here : id ∈ sorting.done ++ sorting.queue := by simp [head]
  obtain ⟨known, ready⟩ := (inv.reached id).mp here
  obtain ⟨node, inside, rfl, released, result, nodup, those⟩ := Sorting.next_eq head known
  have done : (sorting.next graph).done = sorting.done ++ [node.id] := by
    simp [result, Sorting.done]
  have undone : node.id ∉ sorting.done := by
    intro member
    have apart := (List.nodup_append.mp inv.nodup).2.2
    exact apart node.id member node.id (by simp [head]) rfl
  have less := graph.waiting_done undone
  -- A released node waited for edges from this one only.
  have released_iff : ∀ other, other ∈ released ↔
      graph.waiting sorting.done other ≠ 0 ∧ graph.waiting (sorting.done ++ [node.id]) other = 0 := by
    intro other
    have entry := inv.entries other
    have taken := less other
    rw [those, entry]
    omega
  have members : sorting.done ++ [node.id] ++ (rest ++ released) =
      (sorting.done ++ sorting.queue) ++ released := by simp [head]
  refine ⟨⟨?_, ?_, ?_, ?_, ?_⟩, done⟩
  · rw [done, result, members]
    refine List.nodup_append.mpr ⟨inv.nodup, nodup, ?_⟩
    rintro other old _ new rfl
    exact ((released_iff other).mp new).1 ((inv.reached other).mp old).2
  · intro other
    rw [done, result]
    have entry := inv.entries other
    have taken := less other
    simp only
    omega
  · intro other
    rw [done, result, members, List.mem_append, inv.reached, released_iff]
    have taken := less other
    have some : graph.waiting sorting.done other ≠ 0 → other ∈ graph.ids := wf.waits
    constructor
    · rintro (⟨node, none⟩ | ⟨waits, none⟩)
      · exact ⟨node, by omega⟩
      · exact ⟨some waits, none⟩
    · rintro ⟨node, none⟩
      by_cases before : graph.waiting sorting.done other = 0
      · exact .inl ⟨node, before⟩
      · exact .inr ⟨before, none⟩
  · rw [done]
    exact inv.ordered.snoc (WorkflowGraph.waiting_eq_zero.mp ready)
  · intro other member
    rw [result] at member
    rcases List.mem_append.mp member with old | new
    · exact inv.nodes other old
    · rw [List.mem_singleton.mp new]
      exact inside

theorem Sorting.next_nil {sorting : Sorting}
    (empty : sorting.queue = []) : sorting.next graph = sorting := by
  simp [Sorting.next, empty]

theorem Sorting.Inv.length_le {sorting : Sorting} (inv : sorting.Inv graph) :
    sorting.done.length + sorting.queue.length ≤ graph.nodes.length := by
  have inside : sorting.done ++ sorting.queue ⊆ graph.ids := fun id member =>
    ((inv.reached id).mp member).1
  have bound := (inv.nodup.subperm inside).length_le
  simpa [WorkflowGraph.ids] using bound

theorem WorkflowGraph.rounds {graph : WorkflowGraph} (wf : graph.WellFormed) (rounds : Nat) :
    ((Sorting.next graph)^[rounds] graph.sorting).Inv graph ∧
      (((Sorting.next graph)^[rounds] graph.sorting).queue = [] ∨
        rounds ≤ ((Sorting.next graph)^[rounds] graph.sorting).done.length) := by
  induction rounds with
  | zero => exact ⟨graph.inv_sorting wf, .inr (Nat.zero_le _)⟩
  | succ rounds ih =>
    rw [Function.iterate_succ_apply']
    obtain ⟨inv, progress⟩ := ih
    cases queue : ((Sorting.next graph)^[rounds] graph.sorting).queue with
    | nil =>
      rw [Sorting.next_nil queue]
      exact ⟨inv, .inl queue⟩
    | cons id rest =>
      obtain ⟨kept, done⟩ := Sorting.next_spec wf inv queue
      have so_far := progress.resolve_left (by simp [queue])
      exact ⟨kept, .inr (by simpa [done] using so_far)⟩

/-- The outer loop runs until the queue is empty. -/
theorem WorkflowGraph.sorted_spec (wf : graph.WellFormed) :
    graph.sorted.Inv graph ∧ graph.sorted.queue = [] := by
  obtain ⟨inv, progress⟩ := graph.rounds wf (graph.nodes.length + graph.edges.length)
  refine ⟨inv, progress.elim id fun all => ?_⟩
  have bound := inv.length_le
  exact List.length_eq_zero_iff.mp (by simp only [WorkflowGraph.sorted]; omega)

/-! ### What is planned -/

/-- All nodes come out of the loop exactly when there is no cycle. -/
theorem WorkflowGraph.sorted_length (wf : graph.WellFormed) :
    graph.sorted.order.length = graph.nodes.length ↔ ¬ Cyclic graph.Before := by
  obtain ⟨inv, empty⟩ := graph.sorted_spec wf
  have nodup : graph.sorted.done.Nodup := by simpa [empty] using inv.nodup
  have reached : ∀ id, id ∈ graph.sorted.done ↔
      id ∈ graph.ids ∧ graph.waiting graph.sorted.done id = 0 := by
    simpa [empty] using inv.reached
  have inside : graph.sorted.done ⊆ graph.ids := fun id member => ((reached id).mp member).1
  constructor
  · intro all
    have perm : graph.sorted.done.Perm graph.ids :=
      (nodup.subperm inside).perm_of_length_le (by simp [Sorting.done, WorkflowGraph.ids, all])
    exact inv.ordered.acyclic nodup fun source target edge =>
      perm.mem_iff.mpr (wf.targets ⟨source, target⟩ edge)
  · intro acyclic
    -- Of the nodes that are left one waits for none of the others, so it was reached.
    have whole : graph.ids ⊆ graph.sorted.done := by
      intro left known
      by_contra undone
      have nonempty : graph.ids.filter (· ∉ graph.sorted.done) ≠ [] := by
        intro none
        have all := List.filter_eq_nil_iff.mp none left known
        exact all (by simpa using undone)
      obtain ⟨first, member, least⟩ := exists_first acyclic nonempty
      obtain ⟨node, waits⟩ := List.mem_filter.mp member
      apply of_decide_eq_true waits
      refine (reached first).mpr ⟨node, WorkflowGraph.waiting_eq_zero.mpr fun source edge => ?_⟩
      by_contra undone
      apply least source ?_ edge
      exact List.mem_filter.mpr ⟨wf.sources ⟨source, first⟩ edge, by simpa using undone⟩
    have perm := (nodup.subperm inside).antisymm (wf.distinct.subperm whole)
    simpa [Sorting.done, WorkflowGraph.ids] using perm.length_eq

theorem groupUnits_nodes (chain order : List WorkflowNode) :
    (groupUnits chain order).flatMap (·.nodes) = chain ++ order := by
  have gathered : ∀ chain, (chainUnit chain).flatMap (·.nodes) = chain := by
    intro chain
    cases chain <;> simp [chainUnit]
  induction order generalizing chain with
  | nil => simp [groupUnits, gathered]
  | cons node rest ih =>
    cases kind : node.kind <;> simp [groupUnits, kind, ih, gathered]

/-- The units there are: an async node, or a chain of sync ones. -/
inductive WorkflowUnit.Planned : WorkflowUnit → Prop where
  | async (node : WorkflowNode) : Planned ⟨true, [node]⟩
  | chain (nodes : List WorkflowNode) : Planned ⟨false, nodes⟩

theorem groupUnits_planned {chain order : List WorkflowNode} {unit : WorkflowUnit}
    (member : unit ∈ groupUnits chain order) : unit.Planned := by
  have gathered : ∀ chain, unit ∈ chainUnit chain → unit.Planned := by
    intro chain member
    cases chain with
    | nil => cases member
    | cons node more =>
      rw [List.mem_singleton.mp member]
      exact .chain _
  induction order generalizing chain with
  | nil => exact gathered chain member
  | cons node rest ih =>
    cases kind : node.kind with
    | sync =>
      simp only [groupUnits, kind] at member
      exact ih member
    | async =>
      simp only [groupUnits, kind, List.mem_append, List.mem_cons] at member
      rcases member with before | rfl | later
      · exact gathered chain before
      · exact .async node
      · exact ih later

/-- Planning throws exactly on a cycle. -/
theorem WorkflowGraph.planUnits_throws (wf : graph.WellFormed) :
    graph.planUnits = .error cycleError ↔ Cyclic graph.Before := by
  have all := graph.sorted_length wf
  by_cases cycle : Cyclic graph.Before
  · have short : graph.sorted.order.length ≠ graph.nodes.length := fun full => all.mp full cycle
    simp [WorkflowGraph.planUnits, WorkflowGraph.topologicalOrder, short, cycle, Except.map]
  · simp [WorkflowGraph.planUnits, WorkflowGraph.topologicalOrder, all.mpr cycle, cycle, Except.map]

theorem WorkflowGraph.planUnits_ok (wf : graph.WellFormed)
    (acyclic : ¬ Cyclic graph.Before) : ∃ units, graph.planUnits = .ok units := by
  have all := (graph.sorted_length wf).mpr acyclic
  exact ⟨groupUnits [] graph.sorted.order, by
    simp [WorkflowGraph.planUnits, WorkflowGraph.topologicalOrder, all, Except.map]⟩

theorem WorkflowGraph.planUnits_planned {units : List WorkflowUnit}
    (planned : graph.planUnits = .ok units) : ∀ unit ∈ units, unit.Planned := by
  unfold WorkflowGraph.planUnits WorkflowGraph.topologicalOrder at planned
  split at planned
  · cases planned
    exact fun unit => groupUnits_planned
  · cases planned

/-- The units hold every node once, each after its predecessors. -/
theorem WorkflowGraph.planUnits_nodes (wf : graph.WellFormed)
    {units : List WorkflowUnit} (planned : graph.planUnits = .ok units) :
    (units.flatMap (·.nodes)).Perm graph.nodes ∧
      Ordered graph.Before ((units.flatMap (·.nodes)).map (·.id)) := by
  obtain ⟨inv, empty⟩ := graph.sorted_spec wf
  unfold WorkflowGraph.planUnits WorkflowGraph.topologicalOrder at planned
  split at planned
  next all =>
    cases planned
    have nodup : graph.sorted.order.Nodup := by
      apply List.Nodup.of_map (·.id)
      simpa [empty, Sorting.done] using inv.nodup
    rw [groupUnits_nodes, List.nil_append]
    refine ⟨?_, inv.ordered⟩
    exact (nodup.subperm inv.nodes).perm_of_length_le all.ge
  · cases planned

end HelixKit.Backend
