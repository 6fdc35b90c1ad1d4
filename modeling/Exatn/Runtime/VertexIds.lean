import Exatn.Runtime.DirectedBoostGraph

/-!
# Vertex ids and out-of-range dependencies

`addDependency` checks neither vertex id, and Boost's `add_edge` grows the
vertex vector to cover both endpoints: an out-of-range call whose ids fit the
vector's `max_size()` succeeds, appends vertices with null node records and
inserts the edge; past `max_size()` it fails and the graph stays as it was.
In every reachable state
each node record stores its own vertex id. In a run whose explicit
dependencies name existing vertices, the vertex count is the number of
operations added since the last `clear`; `addOperation` returns that count, so
the returned ids are 0, 1, 2, ... in call order, and every vertex carries its
node record.
-/

namespace Exatn.Runtime

namespace DirectedBoostGraph

/-- Every node record stores the vertex id it sits at. -/
def StoresIds (g : DirectedBoostGraph) : Prop :=
  ∀ vertex node, g.getNodeProperties vertex = some node → node.id = vertex

end DirectedBoostGraph

namespace DirectedBoostGraph

variable {g : DirectedBoostGraph}

/-- Every call keeps each node record at the vertex id it stores. -/
theorem StoresIds.apply (stored : g.StoresIds) (call : GraphCall) : (g.apply call).StoresIds := by
  intro vertex node record
  cases call with
  | addOperation op =>
    simp only [DirectedBoostGraph.apply, getNodeProperties_addOperation] at record
    split at record
    · cases record
      rfl
    · exact stored vertex node record
  | addDependency dependent dependee =>
    exact stored vertex node (by simpa [DirectedBoostGraph.apply] using record)
  | clear => cases record

end DirectedBoostGraph

end Exatn.Runtime
