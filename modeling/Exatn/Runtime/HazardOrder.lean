import Exatn.Runtime.EpochHistory
import Exatn.Runtime.ShortestPath
import Exatn.Runtime.Hazards

/-!
# Which hazards the DAG orders

A read after a write and a write after a write are always ordered: in every
graph the public calls build, a path of dependencies leads from the later
vertex to the earlier one. The last writer of a tensor reaches every vertex
that wrote it since the last clear, through the write-after-write edges each
writer adds to its predecessor; a later reader or writer adds an edge to that
last writer. Edges are never removed, and `addDependency` only adds more, so
paths persist along every run.

A write after a read is the one hazard left open: during a write epoch the new
writer depends only on the last writer, not on the readers since, and the
write-read-write example of the hazard module leaves its reader and second
writer unordered.
-/

namespace Exatn.Runtime

namespace DirectedBoostGraph

/-- Every edge of the first graph is an edge of the second. -/
def EdgesGrow (g h : DirectedBoostGraph) : Prop :=
  ∀ a b, b ∈ g.getNeighborList a → b ∈ h.getNeighborList a

/-- The ordering the graph keeps: the last writer of a tensor reaches every
vertex that writes it, and every read-after-write and write-after-write pair is
joined by a path from the later vertex to the earlier one. -/
structure WritesOrdered (g : DirectedBoostGraph) : Prop where
  last_writer : ∀ a x, g.getNodeProperties a = some x →
    ∃ w, g.execState.writer x.op.output = some w ∧ g.Reaches w a
  hazards : ∀ a b x y, a < b → g.getNodeProperties a = some x → g.getNodeProperties b = some y →
    (x.op.output = y.op.output ∨ x.op.output ∈ y.op.inputs) →
    Relation.TransGen (fun u v => v ∈ g.getNeighborList u) b a

section Order

variable {g h : DirectedBoostGraph}

/-- Reachability carries over to a graph with more edges. -/
theorem EdgesGrow.reaches (grows : EdgesGrow g h) {a b : Nat} (reaches : g.Reaches a b) :
    h.Reaches a b :=
  reaches.mono grows

/-- A path of edges carries over to a graph with more edges. -/
theorem EdgesGrow.path (grows : EdgesGrow g h) {a b : Nat}
    (path : Relation.TransGen (fun u v => v ∈ g.getNeighborList u) a b) :
    Relation.TransGen (fun u v => v ∈ h.getNeighborList u) a b :=
  path.mono grows

/-- `addOperation` removes no edge. -/
theorem edgesGrow_addOperation (below : g.execState.NamesBelow g.getNumNodes)
    (op : TensorOperation) : EdgesGrow g (g.addOperation op).2 :=
  fun a b edge => by
    rw [getNeighborList_addOperation _ below]
    exact List.mem_append_left _ edge

/-- `addDependency` removes no edge. -/
theorem edgesGrow_addDependency (dependent dependee : Nat) :
    EdgesGrow g (g.addDependency dependent dependee) := fun a b edge => by
  rw [getNeighborList_addDependency]
  exact List.mem_append_left _ edge

/-- Reads register no writer. -/
theorem writer_foldl_registerTensorRead (node : Nat) (tensors : List Nat) (s : TensorExecState) :
    (tensors.foldl (fun s tensor => s.registerTensorRead tensor node) s).writer = s.writer := by
  induction tensors generalizing s <;> simp_all

/-- `addOperation` makes the new vertex the writer of its output and keeps the
other writers: its reads register no writer. -/
theorem writer_addOperation (op : TensorOperation) (tensor : Nat) :
    (g.addOperation op).2.execState.writer tensor =
      if tensor = op.output then some g.getNumNodes else g.execState.writer tensor := by
  simp [addOperation, writer_foldl_registerTensorRead]

/-- The new vertex depends on the last writer of its output and of each input. -/
theorem writer_mem_addOperation (below : g.execState.NamesBelow g.getNumNodes)
    (op : TensorOperation) {tensor w : Nat}
    (accessed : tensor = op.output ∨ tensor ∈ op.inputs)
    (written : g.execState.writer tensor = some w) :
    w ∈ (g.addOperation op).2.getNeighborList g.getNumNodes := by
  rw [getNeighborList_addOperation _ below, if_pos rfl]
  by_cases output : tensor = op.output
  · subst output
    exact List.mem_append_right _ (List.mem_append_left _
      ((TensorExecState.mem_epochNodes_iff _ _ _).mpr (.inl written)))
  · refine List.mem_append_right _ (List.mem_append_right _ (List.mem_flatMap.mpr
      ⟨tensor, accessed.resolve_left output, ?_⟩))
    simp [output, written]

/-- `addOperation` keeps the writes ordered: the new vertex reaches the last writer of every tensor it accesses. -/
theorem WritesOrdered.addOperation (ordered : g.WritesOrdered)
    (below : g.execState.NamesBelow g.getNumNodes) (op : TensorOperation) :
    (g.addOperation op).2.WritesOrdered := by
  have grows := edgesGrow_addOperation below op
  have record : ∀ v x, (g.addOperation op).2.getNodeProperties v = some x →
      v = g.getNumNodes ∧ x = ⟨op, g.getNumNodes⟩ ∨
        v < g.getNumNodes ∧ g.getNodeProperties v = some x := fun v x stored => by
    rw [getNodeProperties_addOperation] at stored
    split at stored
    · next same =>
      subst same
      exact .inl ⟨rfl, (Option.some.inj stored).symm⟩
    · exact .inr ⟨g.lt_getNumNodes_of_getNodeProperties stored, stored⟩
  /- The new vertex reaches every vertex that wrote a tensor it accesses. -/
  have fresh : ∀ a x, g.getNodeProperties a = some x →
      (x.op.output = op.output ∨ x.op.output ∈ op.inputs) →
      Relation.TransGen (fun u v => v ∈ (g.addOperation op).2.getNeighborList u)
        g.getNumNodes a := fun a x stored accessed => by
    obtain ⟨w, written, reaches⟩ := ordered.last_writer a x stored
    exact .head' (writer_mem_addOperation below op accessed written) (grows.reaches reaches)
  refine ⟨fun a x stored => ?_, fun a b x y earlier first second conflict => ?_⟩
  · rw [writer_addOperation]
    rcases record a x stored with ⟨rfl, rfl⟩ | ⟨-, old⟩
    · exact ⟨_, if_pos rfl, .refl⟩
    · split
      · exact ⟨_, rfl, (fresh a x old (.inl ‹_›)).to_reflTransGen⟩
      · obtain ⟨w, written, reaches⟩ := ordered.last_writer a x old
        exact ⟨w, written, grows.reaches reaches⟩
  · rcases record a x first with ⟨rfl, -⟩ | ⟨-, oldFirst⟩
    · rcases record b y second with ⟨rfl, -⟩ | ⟨below, -⟩ <;> omega
    · rcases record b y second with ⟨rfl, rfl⟩ | ⟨-, oldSecond⟩
      · exact fresh a x oldFirst conflict
      · exact grows.path (ordered.hazards a b x y earlier oldFirst oldSecond conflict)

/-- `addDependency` keeps the writes ordered: it removes no edge and changes no record. -/
theorem WritesOrdered.addDependency (ordered : g.WritesOrdered) (dependent dependee : Nat) :
    (g.addDependency dependent dependee).WritesOrdered := by
  have grows := edgesGrow_addDependency (g := g) dependent dependee
  refine ⟨fun a x stored => ?_, fun a b x y earlier first second conflict => ?_⟩
  · rw [getNodeProperties_addDependency] at stored
    obtain ⟨w, written, reaches⟩ := ordered.last_writer a x stored
    rw [execState_addDependency]
    exact ⟨w, written, grows.reaches reaches⟩
  · rw [getNodeProperties_addDependency] at first second
    exact grows.path (ordered.hazards a b x y earlier first second conflict)

/-- A new graph has its writes ordered. -/
theorem writesOrdered_empty : empty.WritesOrdered :=
  ⟨fun _ _ stored => by simp [getNodeProperties, empty] at stored,
    fun _ _ _ _ _ stored => by simp [getNodeProperties, empty] at stored⟩

/-- Every public call keeps the writes ordered. -/
theorem WritesOrdered.apply (ordered : g.WritesOrdered)
    (below : g.execState.NamesBelow g.getNumNodes) : ∀ call, (g.apply call).WritesOrdered
  | .addOperation op => ordered.addOperation below op
  | .addDependency dependent dependee => ordered.addDependency dependent dependee
  | .clear => writesOrdered_empty

/-- Every graph the public calls build has its writes ordered. -/
theorem writesOrdered_run (calls : List GraphCall) : (run calls).WritesOrdered := by
  suffices ∀ g : DirectedBoostGraph, g.WritesOrdered → g.execState.NamesBelow g.getNumNodes →
      (calls.foldl apply g).WritesOrdered from
    this empty writesOrdered_empty TensorExecState.namesBelow_empty
  induction calls with
  | nil => exact fun _ ordered _ => ordered
  | cons call rest inductionHypothesis =>
    exact fun g ordered below =>
      inductionHypothesis _ (ordered.apply below call) (namesBelow_apply below call)

end Order

/-- In every graph the public calls build, every read-after-write and every
write-after-write pair of operations is ordered: when a later vertex reads or
writes the tensor an earlier vertex writes, a path of dependencies leads from
the later vertex to the earlier one. -/
theorem writes_ordered_by_paths (calls : List GraphCall) (a b : Nat) (x y : TensorOpNode)
    (earlier : a < b) (first : (run calls).getNodeProperties a = some x)
    (second : (run calls).getNodeProperties b = some y)
    (conflict : x.op.output = y.op.output ∨ x.op.output ∈ y.op.inputs) :
    Relation.TransGen (fun u v => (run calls).dependencyExists u v = true) b a :=
  ((writesOrdered_run calls).hazards a b x y earlier first second conflict).mono
    fun _ _ edge => decide_eq_true edge

/-- After write, read, write of tensor 7, the second writer reaches the first. -/
theorem writeReadWrite_writers_ordered :
    (run writeReadWrite).getNodeProperties 0 = some ⟨⟨7, []⟩, 0⟩ ∧
      (run writeReadWrite).getNodeProperties 2 = some ⟨⟨7, []⟩, 2⟩ ∧
      Relation.TransGen (fun u v => (run writeReadWrite).dependencyExists u v = true) 2 0 :=
  ⟨by decide, by decide,
    writes_ordered_by_paths writeReadWrite 0 2 ⟨⟨7, []⟩, 0⟩ ⟨⟨7, []⟩, 2⟩ (by decide) (by decide) (by decide) (.inl rfl)⟩

end DirectedBoostGraph

end Exatn.Runtime
