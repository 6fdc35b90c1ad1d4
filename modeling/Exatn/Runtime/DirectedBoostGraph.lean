import Exatn.Runtime.ExecState
import Mathlib.Data.List.Basic

/-!
# The Boost DAG of tensor operations

`DirectedBoostGraph` stores a Boost `adjacency_list<vecS, vecS, directedS>`:
vertices are the positions of a vector, each carrying a shared pointer to its
node record and a vector of out-edges, and parallel edges are allowed. An edge
from `a` to `b` says that `a` depends on `b`. Boost's `add_edge` resizes the
vertex vector to `max u v + 1` when an endpoint is out of range; the new
vertices carry null node records. That size is computed in `size_t`: past the
vector's `max_size()` the resize throws `std::length_error`, and at the largest
id it wraps to zero; either way `addDependency` ends with the graph as it was.
Edges are added without a weight, so each carries the default-constructed
weight, which no operation changes.

`addOperation` appends a vertex, adds edges from the epoch nodes of the output
tensor, registers the write, and then, input by input, adds read-after-write
edges in a write epoch and registers the read. Locking is not modelled: every
call runs under the graph's mutex, so calls are atomic steps of the model.
Queries that the source answers through undefined behaviour on an out-of-range
vertex return the empty answer here.
-/

namespace Exatn.Runtime

/-- A stored Boost vertex: its node record (`none` for a null pointer) and its
out-edge targets in insertion order. -/
structure DirectedBoostVertex where
  properties : Option TensorOpNode
  outEdges : List Nat
  deriving DecidableEq, Repr

/-- The DAG and its execution state. -/
structure DirectedBoostGraph where
  dag : List DirectedBoostVertex
  execState : TensorExecState

/-- A vertex created by resizing the vertex vector: a null node record and no
out-edges. -/
def DirectedBoostVertex.blank : DirectedBoostVertex := ⟨none, []⟩

/-- The most elements libstdc++'s `std::vector` of Boost's stored vertices may
hold on a 64-bit target: `PTRDIFF_MAX / 40`, a stored vertex being its
out-edge vector (24 bytes) and its property, a shared pointer (16 bytes). -/
def vertexMaxSize : Nat := 230584300921369395

/-- How Boost's `add_edge` fails when it must grow the vertex vector to
`max u v + 1`: computed in `size_t`, that size wraps to zero for the largest id
(the vector is emptied, and the source's out-edges are then read out of range,
which is undefined behaviour), or it exceeds the vector's `max_size()` and
`resize` throws `std::length_error`. -/
inductive AddEdgeFailure
  | sizeWrap
  | lengthError
  deriving DecidableEq, Repr

/-- The vertex vector after `add_edge` has resized it to cover both endpoints
with default vertices and appended the target to the source's out-edges. -/
def insertEdge (dag : List DirectedBoostVertex) (source target : Nat) :
    List DirectedBoostVertex :=
  (dag ++ List.replicate (max source target + 1 - dag.length) DirectedBoostVertex.blank).modify
    (fun vertex => { vertex with outEdges := vertex.outEdges ++ [target] }) source

/-- Boost `add_edge` on a vecS vertex list: when an endpoint is out of range,
resize the vertex vector to `max u v + 1`, computed in `size_t`; then append the
target to the source's out-edges. Ids are `size_t` values. Allocation below
`max_size()` is taken to succeed: `std::bad_alloc` is not modelled. -/
def addEdge (dag : List DirectedBoostVertex) (source target : Nat) :
    Except AddEdgeFailure (List DirectedBoostVertex) :=
  if max source target < dag.length then .ok (insertEdge dag source target)
  else if max source target + 1 = UInt64.size then .error .sizeWrap
  else if vertexMaxSize < max source target + 1 then .error .lengthError
  else .ok (insertEdge dag source target)

/-- `add_edge` inserts its edge: both endpoints exist, or the resize that covers
them fits the vertex vector. -/
def EdgeFits (numVertices source target : Nat) : Prop :=
  max source target < numVertices ∨ max source target < vertexMaxSize

instance (numVertices source target : Nat) : Decidable (EdgeFits numVertices source target) :=
  inferInstanceAs (Decidable (_ ∨ _))

/-- An edge between existing vertices fits. -/
theorem EdgeFits.of_lt {numVertices source target : Nat} (inSource : source < numVertices)
    (inTarget : target < numVertices) : EdgeFits numVertices source target :=
  .inl (max_lt inSource inTarget)

/-- The vertex vector's `max_size()` is a `size_t` value. -/
theorem vertexMaxSize_lt_size : vertexMaxSize < UInt64.size := by decide

/-- `add_edge` succeeds on endpoints that fit, with the resized vertex vector. -/
theorem addEdge_of_fits {dag : List DirectedBoostVertex} {source target : Nat}
    (fits : EdgeFits dag.length source target) :
    addEdge dag source target = .ok (insertEdge dag source target) := by
  have := vertexMaxSize_lt_size
  unfold addEdge EdgeFits at *
  split_ifs <;> first | rfl | omega

/-- Beyond the vertex vector's `max_size()`, `add_edge` fails: with
`length_error`, or by wrapping at the largest `size_t` id. -/
theorem addEdge_of_not_fits {dag : List DirectedBoostVertex} {source target : Nat}
    (beyond : ¬ EdgeFits dag.length source target) :
    addEdge dag source target =
      .error (if max source target + 1 = UInt64.size then .sizeWrap else .lengthError) := by
  unfold addEdge EdgeFits at *
  split_ifs <;> first | rfl | omega

/-- The vertex vector after `add_edge` has room for both endpoints. -/
@[simp] theorem length_insertEdge (dag : List DirectedBoostVertex) (source target : Nat) :
    (insertEdge dag source target).length = max dag.length (max source target + 1) := by
  simp only [insertEdge, List.length_modify, List.length_append, List.length_replicate]
  omega

/-- `add_edge` keeps every node record; the vertices it creates are null. -/
@[simp] theorem properties_insertEdge (dag : List DirectedBoostVertex) (source target w : Nat) :
    ((insertEdge dag source target)[w]?).bind (·.properties) = (dag[w]?).bind (·.properties) := by
  rw [insertEdge, List.getElem?_modify]
  by_cases old : w < dag.length
  · rw [List.getElem?_append_left old, List.getElem?_eq_getElem old]
    simp only [Option.map_eq_map, Option.map_some', Option.some_bind]
    split <;> rfl
  · rw [List.getElem?_append_right (Nat.le_of_not_lt old),
      List.getElem?_eq_none (Nat.le_of_not_lt old), List.getElem?_replicate]
    split <;> split <;> simp [DirectedBoostVertex.blank]

/-- `add_edge` appends its target to the out-edges of its source only. -/
@[simp] theorem outEdges_insertEdge (dag : List DirectedBoostVertex) (source target w : Nat) :
    (((insertEdge dag source target)[w]?).map (·.outEdges)).getD [] =
      ((dag[w]?).map (·.outEdges)).getD [] ++ if w = source then [target] else [] := by
  rw [insertEdge, List.getElem?_modify]
  by_cases old : w < dag.length
  · rw [List.getElem?_append_left old, List.getElem?_eq_getElem old]
    rcases eq_or_ne source w with rfl | other <;> simp [*, Ne.symm]
  · rw [List.getElem?_append_right (Nat.le_of_not_lt old),
      List.getElem?_eq_none (Nat.le_of_not_lt old), List.getElem?_replicate]
    rcases eq_or_ne source w with rfl | other
    · have grown : source - dag.length < max source target + 1 - dag.length := by
        have := le_max_left source target
        omega
      simp [grown, DirectedBoostVertex.blank]
    · simp only [other, Ne.symm other, if_false]
      split <;> rfl

namespace DirectedBoostGraph

/-- A newly constructed graph. -/
def empty : DirectedBoostGraph := ⟨[], TensorExecState.empty⟩

/-- The total number of vertices. -/
def getNumNodes (g : DirectedBoostGraph) : Nat := g.dag.length

/-- The total number of directed edges. -/
def getNumDependencies (g : DirectedBoostGraph) : Nat :=
  g.dag.foldl (fun total vertex => total + vertex.outEdges.length) 0

/-- The vertices a vertex depends on, in edge insertion order. -/
def getNeighborList (g : DirectedBoostGraph) (vertex : Nat) : List Nat :=
  (g.dag[vertex]?.map (·.outEdges)).getD []

/-- TRUE iff there is a direct edge from the first vertex to the second. -/
def dependencyExists (g : DirectedBoostGraph) (vertex1 vertex2 : Nat) : Bool :=
  vertex2 ∈ g.getNeighborList vertex1

/-- The node record of a vertex; `none` for a null pointer. -/
def getNodeProperties (g : DirectedBoostGraph) (vertex : Nat) : Option TensorOpNode :=
  g.dag[vertex]?.bind (·.properties)

/-- The number of dependencies of a vertex, computed from its neighbor list. -/
def getNodeDegree (g : DirectedBoostGraph) (vertex : Nat) : Nat :=
  (g.getNeighborList vertex).length

/-- Marks the dependency of `dependent` on `dependee` by an edge, with no check
of either id. When `add_edge` fails the call ends with the graph as it was:
`resize` throws before it changes the vector, and the undefined behaviour of a
wrapped size is given the same answer. -/
def addDependency (g : DirectedBoostGraph) (dependent dependee : Nat) :
    DirectedBoostGraph :=
  match addEdge g.dag dependent dependee with
  | .ok dag => { g with dag := dag }
  | .error _ => g

/-- One `addDependency` from `vid` to each of `nodes`, in order. -/
def addDependencies (g : DirectedBoostGraph) (vid : Nat) (nodes : List Nat) :
    DirectedBoostGraph :=
  nodes.foldl (fun graph node => graph.addDependency vid node) g

/-- One input operand of `addOperation`: a write epoch gives read-after-write
edges to its nodes, then the read is registered. -/
def scanInput (vid : Nat) (g : DirectedBoostGraph) (tensor : Nat) :
    DirectedBoostGraph :=
  let epochNodes := g.execState.getTensorEpochNodes tensor
  let g := if epochNodes.2 < 0 then g.addDependencies vid (epochNodes.1.getD []) else g
  { g with execState := g.execState.registerTensorRead tensor vid }

/-- `add_vertex`, then the new node record for `op` with its vertex id stored. -/
def addNode (g : DirectedBoostGraph) (op : TensorOperation) : DirectedBoostGraph :=
  { g with dag := g.dag ++ [⟨some ⟨op, g.dag.length⟩, []⟩] }

/-- The output operand of `addOperation`: write-after-read and write-after-write
edges to every epoch node (none when the epoch is absent), then the write is
registered. -/
def scanOutput (vid : Nat) (g : DirectedBoostGraph) (tensor : Nat) : DirectedBoostGraph :=
  let g := g.addDependencies vid ((g.execState.getTensorEpochNodes tensor).1.getD [])
  { g with execState := g.execState.registerTensorWrite tensor vid }

/-- Appends a new DAG node for `op` and returns its vertex id with the new
graph. The output is scanned before the inputs, so the write of the output is
registered when the inputs are scanned. -/
def addOperation (g : DirectedBoostGraph) (op : TensorOperation) :
    Nat × DirectedBoostGraph :=
  let vid := g.getNumNodes
  (vid, op.inputs.foldl (scanInput vid) (scanOutput vid (g.addNode op) op.output))

/-- Removes every vertex and edge and clears the execution state. -/
def clear (_ : DirectedBoostGraph) : DirectedBoostGraph := empty

end DirectedBoostGraph

/-- The public calls that change a graph. The queries are functions of the
graph and leave it as it is. -/
inductive GraphCall
  | addOperation (op : TensorOperation)
  | addDependency (dependent dependee : Nat)
  | clear
  deriving DecidableEq, Repr

namespace DirectedBoostGraph

/-- The graph after one call. -/
def apply (g : DirectedBoostGraph) : GraphCall → DirectedBoostGraph
  | .addOperation op => (g.addOperation op).2
  | .addDependency dependent dependee => g.addDependency dependent dependee
  | .clear => g.clear

/-- The graph after a sequence of calls on a newly constructed graph. -/
def run (calls : List GraphCall) : DirectedBoostGraph := calls.foldl apply empty

end DirectedBoostGraph

namespace DirectedBoostGraph

variable (g : DirectedBoostGraph)

/-- Updating the execution state keeps the vertex count. -/
@[simp] theorem getNumNodes_setExecState (s : TensorExecState) :
    ({ g with execState := s } : DirectedBoostGraph).getNumNodes = g.getNumNodes := rfl

/-- Updating the execution state keeps every node record. -/
@[simp] theorem getNodeProperties_setExecState (s : TensorExecState) (vertex : Nat) :
    ({ g with execState := s } : DirectedBoostGraph).getNodeProperties vertex =
      g.getNodeProperties vertex := rfl

/-- Updating the execution state keeps every out-edge list. -/
@[simp] theorem getNeighborList_setExecState (s : TensorExecState) (vertex : Nat) :
    ({ g with execState := s } : DirectedBoostGraph).getNeighborList vertex =
      g.getNeighborList vertex := rfl

/-- A successful `addDependency` stores the vertex vector `add_edge` builds. -/
theorem addDependency_of_fits {dependent dependee : Nat}
    (fits : EdgeFits g.getNumNodes dependent dependee) :
    g.addDependency dependent dependee = { g with dag := insertEdge g.dag dependent dependee } := by
  simp only [addDependency, addEdge_of_fits fits]

/-- A failed `addDependency` leaves the graph as it was. -/
theorem addDependency_of_not_fits {dependent dependee : Nat}
    (beyond : ¬ EdgeFits g.getNumNodes dependent dependee) :
    g.addDependency dependent dependee = g := by
  simp only [addDependency, addEdge_of_not_fits beyond]

/-- `addDependency` grows the vertex set to cover both ids exactly when the edge fits. -/
@[simp] theorem getNumNodes_addDependency (dependent dependee : Nat) :
    (g.addDependency dependent dependee).getNumNodes =
      if EdgeFits g.getNumNodes dependent dependee then
        max g.getNumNodes (max dependent dependee + 1)
      else g.getNumNodes := by
  split
  · next fits =>
    rw [g.addDependency_of_fits fits]
    exact length_insertEdge ..
  · next beyond => rw [g.addDependency_of_not_fits beyond]

/-- `addDependency` keeps every node record, failing or not. -/
@[simp] theorem getNodeProperties_addDependency (dependent dependee vertex : Nat) :
    (g.addDependency dependent dependee).getNodeProperties vertex = g.getNodeProperties vertex := by
  by_cases fits : EdgeFits g.getNumNodes dependent dependee
  · rw [g.addDependency_of_fits fits]
    exact properties_insertEdge ..
  · rw [g.addDependency_of_not_fits fits]

/-- `addDependency` appends the dependee to the dependent's out-edges exactly when the edge fits. -/
@[simp] theorem getNeighborList_addDependency (dependent dependee vertex : Nat) :
    (g.addDependency dependent dependee).getNeighborList vertex =
      g.getNeighborList vertex ++
        if vertex = dependent ∧ EdgeFits g.getNumNodes dependent dependee then [dependee]
        else [] := by
  by_cases fits : EdgeFits g.getNumNodes dependent dependee
  · rw [g.addDependency_of_fits fits]
    simp only [fits, and_true]
    exact outEdges_insertEdge ..
  · rw [g.addDependency_of_not_fits fits, if_neg (fun both => fits both.2), List.append_nil]

/-- `addDependency` keeps the execution state. -/
@[simp] theorem execState_addDependency (dependent dependee : Nat) :
    (g.addDependency dependent dependee).execState = g.execState := by
  unfold addDependency
  split <;> rfl

/-- An edge between existing vertices adds no vertex. -/
theorem getNumNodes_addDependency_of_lt {dependent dependee : Nat}
    (inSource : dependent < g.getNumNodes) (inTarget : dependee < g.getNumNodes) :
    (g.addDependency dependent dependee).getNumNodes = g.getNumNodes := by
  rw [getNumNodes_addDependency, if_pos (.of_lt inSource inTarget)]
  omega

/-- A series of dependencies keeps every node record. -/
@[simp] theorem getNodeProperties_addDependencies (vid : Nat) (nodes : List Nat) (vertex : Nat) :
    (g.addDependencies vid nodes).getNodeProperties vertex = g.getNodeProperties vertex := by
  induction nodes generalizing g <;> simp_all [addDependencies]

/-- A series of dependencies keeps the execution state. -/
@[simp] theorem execState_addDependencies (vid : Nat) (nodes : List Nat) :
    (g.addDependencies vid nodes).execState = g.execState := by
  induction nodes generalizing g <;> simp_all [addDependencies]

/-- Edges from an existing vertex to existing vertices add no vertex. -/
theorem getNumNodes_addDependencies (vid : Nat) (nodes : List Nat)
    (source : vid < g.getNumNodes) (targets : ∀ node ∈ nodes, node < g.getNumNodes) :
    (g.addDependencies vid nodes).getNumNodes = g.getNumNodes := by
  induction nodes generalizing g with
  | nil => rfl
  | cons node rest inductionHypothesis =>
    have kept := g.getNumNodes_addDependency_of_lt source (targets node (List.mem_cons_self _ _))
    simp only [addDependencies, List.foldl_cons] at inductionHypothesis ⊢
    rw [inductionHypothesis _ (kept ▸ source) (fun other member => kept ▸
      targets other (List.mem_cons_of_mem _ member)), kept]

/-- Edges from an existing vertex to existing vertices are appended to its
out-edges in order. -/
theorem getNeighborList_addDependencies (vid : Nat) (nodes : List Nat) (vertex : Nat)
    (source : vid < g.getNumNodes) (targets : ∀ node ∈ nodes, node < g.getNumNodes) :
    (g.addDependencies vid nodes).getNeighborList vertex =
      g.getNeighborList vertex ++ if vertex = vid then nodes else [] := by
  induction nodes generalizing g with
  | nil => simp [addDependencies]
  | cons node rest inductionHypothesis =>
    have target := targets node (List.mem_cons_self _ _)
    have kept := g.getNumNodes_addDependency_of_lt source target
    have step := inductionHypothesis (g.addDependency vid node) (kept ▸ source)
      (fun other member => kept ▸ targets other (List.mem_cons_of_mem _ member))
    simp only [addDependencies, List.foldl_cons] at step ⊢
    rw [step, getNeighborList_addDependency]
    by_cases own : vertex = vid <;> simp [own, EdgeFits.of_lt source target]

/-- `add_vertex` adds one vertex. -/
@[simp] theorem getNumNodes_addNode (op : TensorOperation) :
    (g.addNode op).getNumNodes = g.getNumNodes + 1 := by
  simp [addNode, getNumNodes]

/-- The new vertex carries the new node record with its id; no other record changes. -/
@[simp] theorem getNodeProperties_addNode (op : TensorOperation) (vertex : Nat) :
    (g.addNode op).getNodeProperties vertex =
      if vertex = g.getNumNodes then some ⟨op, vertex⟩ else g.getNodeProperties vertex := by
  simp only [addNode, getNodeProperties, getNumNodes, List.getElem?_append]
  split
  · rw [if_neg (by omega)]
  · rw [List.getElem?_eq_none (by omega : g.dag.length ≤ vertex)]
    by_cases same : vertex = g.dag.length
    · simp [same]
    · rw [if_neg same, List.getElem?_eq_none (by simp; omega)]

/-- The new vertex has no out-edge and no other out-edge list changes. -/
@[simp] theorem getNeighborList_addNode (op : TensorOperation) (vertex : Nat) :
    (g.addNode op).getNeighborList vertex = g.getNeighborList vertex := by
  simp only [addNode, getNeighborList, List.getElem?_append]
  split
  · rfl
  · rw [List.getElem?_eq_none (by omega : g.dag.length ≤ vertex)]
    by_cases same : vertex = g.dag.length
    · simp [same]
    · rw [List.getElem?_eq_none (by simp; omega)]

/-- Adding the vertex leaves the execution state to the scans. -/
@[simp] theorem execState_addNode (op : TensorOperation) :
    (g.addNode op).execState = g.execState := rfl

/-- An input scan registers the read of the input. -/
@[simp] theorem execState_scanInput (vid tensor : Nat) :
    (scanInput vid g tensor).execState = g.execState.registerTensorRead tensor vid := by
  by_cases writing : (g.execState.getTensorEpochNodes tensor).2 < 0 <;> simp [scanInput, writing]

/-- An input scan keeps every node record. -/
@[simp] theorem getNodeProperties_scanInput (vid tensor vertex : Nat) :
    (scanInput vid g tensor).getNodeProperties vertex = g.getNodeProperties vertex := by
  by_cases writing : (g.execState.getTensorEpochNodes tensor).2 < 0 <;>
    simp [scanInput, writing]

/-- An input of an existing vertex whose writer on record exists adds
read-after-write edges from the vertex exactly in a write epoch, to the
epoch's nodes. -/
theorem getNeighborList_scanInput (vid tensor vertex : Nat) (source : vid < g.getNumNodes)
    (writers : ∀ node, g.execState.writer tensor = some node → node < g.getNumNodes) :
    (scanInput vid g tensor).getNeighborList vertex = g.getNeighborList vertex ++
      if vertex = vid ∧ (g.execState.getTensorEpochNodes tensor).2 < 0 then
        (g.execState.getTensorEpochNodes tensor).1.getD [] else [] := by
  by_cases writing : (g.execState.getTensorEpochNodes tensor).2 < 0
  · obtain ⟨node, written, nodes⟩ := (g.execState.epoch_neg_iff tensor).mp writing
    simp [scanInput, writing, nodes,
      g.getNeighborList_addDependencies vid [node] vertex source (by simpa using writers node written)]
  · simp [scanInput, writing]

/-- An input of an existing vertex adds no vertex when the writers on record
exist. -/
theorem getNumNodes_scanInput (vid tensor : Nat) (source : vid < g.getNumNodes)
    (writers : ∀ node, g.execState.writer tensor = some node → node < g.getNumNodes) :
    (scanInput vid g tensor).getNumNodes = g.getNumNodes := by
  by_cases writing : (g.execState.getTensorEpochNodes tensor).2 < 0
  · obtain ⟨node, written, nodes⟩ := (g.execState.epoch_neg_iff tensor).mp writing
    simpa [scanInput, writing, nodes] using
      getNumNodes_addDependencies g vid [node] source (by simpa using writers node written)
  · simp [scanInput, writing]

/-- The output scan registers the write of the output. -/
@[simp] theorem execState_scanOutput (vid tensor : Nat) :
    (scanOutput vid g tensor).execState = g.execState.registerTensorWrite tensor vid := by
  simp [scanOutput]

/-- The output scan keeps every node record. -/
@[simp] theorem getNodeProperties_scanOutput (vid tensor vertex : Nat) :
    (scanOutput vid g tensor).getNodeProperties vertex = g.getNodeProperties vertex := by
  simp [scanOutput]

/-- The output of an existing vertex whose epoch nodes exist adds edges from
the vertex to every epoch node. -/
theorem getNeighborList_scanOutput (vid tensor vertex : Nat) (source : vid < g.getNumNodes)
    (targets : ∀ node ∈ (g.execState.getTensorEpochNodes tensor).1.getD [],
      node < g.getNumNodes) :
    (scanOutput vid g tensor).getNeighborList vertex = g.getNeighborList vertex ++
      if vertex = vid then (g.execState.getTensorEpochNodes tensor).1.getD [] else [] := by
  simp [scanOutput, g.getNeighborList_addDependencies vid _ vertex source targets]

/-- The output of an existing vertex adds no vertex when its epoch nodes exist. -/
theorem getNumNodes_scanOutput (vid tensor : Nat) (source : vid < g.getNumNodes)
    (targets : ∀ node ∈ (g.execState.getTensorEpochNodes tensor).1.getD [],
      node < g.getNumNodes) :
    (scanOutput vid g tensor).getNumNodes = g.getNumNodes := by
  simpa [scanOutput] using g.getNumNodes_addDependencies vid _ source targets

/-- The input scans keep every node record. -/
@[simp] theorem getNodeProperties_foldl_scanInput (vid : Nat) (tensors : List Nat)
    (vertex : Nat) :
    (tensors.foldl (scanInput vid) g).getNodeProperties vertex = g.getNodeProperties vertex := by
  induction tensors generalizing g <;> simp_all

/-- `addOperation` stores the new node record at the new vertex and changes no
other node record. -/
@[simp] theorem getNodeProperties_addOperation (op : TensorOperation) (vertex : Nat) :
    (g.addOperation op).2.getNodeProperties vertex =
      if vertex = g.getNumNodes then some ⟨op, vertex⟩ else g.getNodeProperties vertex := by
  simp [addOperation]

/-- A vertex beyond the vertex vector has no out-edges. -/
theorem getNeighborList_of_le {vertex : Nat} (beyond : g.getNumNodes ≤ vertex) :
    g.getNeighborList vertex = [] := by
  simp [getNeighborList, List.getElem?_eq_none beyond]

/-- `clear` removes every vertex. -/
@[simp] theorem getNumNodes_clear : g.clear.getNumNodes = 0 := rfl

/-- `clear` leaves no node record. -/
@[simp] theorem getNodeProperties_clear (vertex : Nat) :
    g.clear.getNodeProperties vertex = none := rfl

/-- `clear` leaves no edge. -/
@[simp] theorem getNeighborList_clear (vertex : Nat) : g.clear.getNeighborList vertex = [] := rfl

/-- `clear` resets the execution state. -/
@[simp] theorem execState_clear : g.clear.execState = TensorExecState.empty := rfl

end DirectedBoostGraph

namespace DirectedBoostGraph

section NamesBelow

variable {g : DirectedBoostGraph}

/-- Scanning inputs of an existing vertex adds no vertex when the execution
state names existing vertices only, and keeps it so. -/
theorem foldl_scanInput_count (vid : Nat) (tensors : List Nat)
    (below : g.execState.NamesBelow g.getNumNodes) (source : vid < g.getNumNodes) :
    (tensors.foldl (scanInput vid) g).getNumNodes = g.getNumNodes ∧
      (tensors.foldl (scanInput vid) g).execState.NamesBelow g.getNumNodes := by
  induction tensors generalizing g with
  | nil => exact ⟨rfl, below⟩
  | cons tensor rest inductionHypothesis =>
    have count := g.getNumNodes_scanInput vid tensor source
      (fun node written => (below tensor node).1 written)
    have below' : (scanInput vid g tensor).execState.NamesBelow
        (scanInput vid g tensor).getNumNodes := by
      rw [count, execState_scanInput]
      exact below.registerTensorRead source
    obtain ⟨count', below''⟩ := inductionHypothesis below' (count ▸ source)
    exact ⟨count'.trans count, count ▸ below''⟩

/-- With the execution state naming existing vertices, the output scan of a
new vertex adds no other vertex and keeps the execution state so. -/
theorem scanOutput_count (below : g.execState.NamesBelow g.getNumNodes) (op : TensorOperation) :
    (scanOutput g.getNumNodes (g.addNode op) op.output).getNumNodes = g.getNumNodes + 1 ∧
      (scanOutput g.getNumNodes (g.addNode op) op.output).execState.NamesBelow
        (scanOutput g.getNumNodes (g.addNode op) op.output).getNumNodes := by
  have count := (g.addNode op).getNumNodes_scanOutput g.getNumNodes op.output (by simp)
    (by simpa using (below.mono (Nat.le_succ _)).epoch_nodes op.output)
  rw [getNumNodes_addNode] at count
  refine ⟨count, ?_⟩
  rw [count, execState_scanOutput]
  exact (below.mono (Nat.le_succ _)).registerTensorWrite (Nat.lt_succ_self _)

/-- With the execution state naming existing vertices, `addOperation` adds
exactly one vertex and keeps the execution state so. -/
theorem addOperation_count (below : g.execState.NamesBelow g.getNumNodes)
    (op : TensorOperation) :
    (g.addOperation op).2.getNumNodes = g.getNumNodes + 1 ∧
      (g.addOperation op).2.execState.NamesBelow (g.getNumNodes + 1) := by
  obtain ⟨count, written⟩ := scanOutput_count below op
  obtain ⟨count', below'⟩ := foldl_scanInput_count g.getNumNodes op.inputs written (by omega)
  rw [count] at count' below'
  exact ⟨count', below'⟩

/-- Every call keeps the execution state naming existing vertices only. -/
theorem namesBelow_apply (below : g.execState.NamesBelow g.getNumNodes) :
    ∀ call, (g.apply call).execState.NamesBelow (g.apply call).getNumNodes
  | .addOperation op => by
    obtain ⟨grown, below'⟩ := addOperation_count below op
    show (g.addOperation op).2.execState.NamesBelow (g.addOperation op).2.getNumNodes
    rw [grown]
    exact below'
  | .addDependency dependent dependee => by
    show (g.addDependency dependent dependee).execState.NamesBelow
      (g.addDependency dependent dependee).getNumNodes
    refine (execState_addDependency g dependent dependee) ▸ below.mono ?_
    rw [getNumNodes_addDependency]
    split <;> omega
  | .clear => TensorExecState.namesBelow_empty

/-- In every graph the public calls build, the execution state names existing
vertices only. -/
theorem namesBelow_run (calls : List GraphCall) :
    (run calls).execState.NamesBelow (run calls).getNumNodes := by
  suffices ∀ g : DirectedBoostGraph, g.execState.NamesBelow g.getNumNodes →
      (calls.foldl apply g).execState.NamesBelow (calls.foldl apply g).getNumNodes from
    this empty TensorExecState.namesBelow_empty
  induction calls with
  | nil => exact fun _ below => below
  | cons call rest inductionHypothesis =>
    exact fun g below => inductionHypothesis _ (namesBelow_apply below call)

end NamesBelow

end DirectedBoostGraph

end Exatn.Runtime
