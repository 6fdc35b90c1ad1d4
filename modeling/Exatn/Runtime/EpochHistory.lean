import Exatn.Runtime.DirectedBoostGraph

/-!
# The execution state as a history of accesses

`addOperation` registers, for its new vertex, the write of the output tensor and
then the read of each input tensor, and `clear` forgets everything. What the
execution state answers is a function of this access history: the writer of a
tensor is the vertex that wrote it last, and its readers are the vertices that
read it since. `lastWrite` and `readsSince` say so declaratively, over the
history read off the node records of the graph (`accessLog`), and every run of
the public calls keeps the execution state equal to the replay of that history.

From this, the edges `addOperation` adds are exactly the hazards of the new
operation against the history: the last writer of its output or, when the
output was never written since the last clear, every reader of it; the last
writer of each input other than its output; and the new vertex itself when it
reads its own output. Every other vertex keeps its edges.
-/

namespace Exatn.Runtime

/-- One access a vertex registers with the execution state. -/
inductive TensorAccess
  | write (tensor : Nat)
  | read (tensor : Nat)
  deriving DecidableEq, Repr

/-- The accesses `addOperation` registers for vertex `vid` performing `op`: the
write of the output, then the reads of the inputs in operand order. -/
def TensorOperation.accesses (op : TensorOperation) (vid : Nat) : List (Nat × TensorAccess) :=
  (vid, .write op.output) :: op.inputs.map fun tensor => (vid, .read tensor)

namespace TensorExecState

/-- Registers one access of a vertex. -/
def registerAccess (s : TensorExecState) : Nat × TensorAccess → TensorExecState
  | (node, .write tensor) => s.registerTensorWrite tensor node
  | (node, .read tensor) => s.registerTensorRead tensor node

end TensorExecState

/-- The vertex of the last write of the tensor in a history of accesses. -/
def lastWrite (history : List (Nat × TensorAccess)) (tensor : Nat) : Option Nat :=
  (history.reverse.find? (·.2 = .write tensor)).map (·.1)

/-- The vertices that read the tensor after its last write, or since the start
of the history when it was not written, most recent first. -/
def readsSince (history : List (Nat × TensorAccess)) (tensor : Nat) : List Nat :=
  ((history.reverse.takeWhile (·.2 ≠ .write tensor)).filter (·.2 = .read tensor)).map (·.1)

section History

variable (history : List (Nat × TensorAccess)) (node tensor : Nat)

/-- An empty history has no write. -/
@[simp] theorem lastWrite_nil : lastWrite [] tensor = none := rfl

/-- An empty history has no read. -/
@[simp] theorem readsSince_nil : readsSince [] tensor = [] := rfl

/-- A write becomes the last write of its tensor. -/
@[simp] theorem lastWrite_append_write (written : Nat) :
    lastWrite (history ++ [(node, .write written)]) tensor =
      if tensor = written then some node else lastWrite history tensor := by
  rcases eq_or_ne tensor written with rfl | other <;> simp [lastWrite, *, Ne.symm]

/-- A read changes no last write. -/
@[simp] theorem lastWrite_append_read (read : Nat) :
    lastWrite (history ++ [(node, .read read)]) tensor = lastWrite history tensor := by
  simp [lastWrite]

/-- A write of a tensor forgets the reads of it before. -/
@[simp] theorem readsSince_append_write (written : Nat) :
    readsSince (history ++ [(node, .write written)]) tensor =
      if tensor = written then [] else readsSince history tensor := by
  rcases eq_or_ne tensor written with rfl | other <;> simp [readsSince, *, Ne.symm]

/-- A read of a tensor is the latest read since its last write. -/
@[simp] theorem readsSince_append_read (read : Nat) :
    readsSince (history ++ [(node, .read read)]) tensor =
      if tensor = read then node :: readsSince history tensor else readsSince history tensor := by
  rcases eq_or_ne tensor read with rfl | other <;> simp [readsSince, *, Ne.symm]

/-- Replaying a history of accesses on a new execution state records, for every
tensor, the vertex of its last write as the writer and the vertices that read it
since as the readers. -/
theorem foldl_registerAccess :
    (history.foldl TensorExecState.registerAccess TensorExecState.empty).writer tensor =
        lastWrite history tensor ∧
      ∀ v, v ∈ (history.foldl TensorExecState.registerAccess TensorExecState.empty).readers tensor ↔
        v ∈ readsSince history tensor := by
  induction history using List.reverseRecOn with
  | nil => simp
  | append_singleton earlier access inductionHypothesis =>
    obtain ⟨writer, readers⟩ := inductionHypothesis
    obtain ⟨vertex, written | read⟩ := access
    · rcases eq_or_ne tensor written with rfl | other <;>
        simp [TensorExecState.registerAccess, *]
    · rcases eq_or_ne tensor read with rfl | other <;>
        simp [TensorExecState.registerAccess, *, List.mem_insert_iff]

end History

namespace TensorExecState

variable (s : TensorExecState) (tensor : Nat)

/-- What an input adds: the writer in a write epoch, nothing otherwise. -/
theorem writeEpochNodes :
    (if (s.getTensorEpochNodes tensor).2 < 0 then (s.getTensorEpochNodes tensor).1.getD []
      else []) = (s.writer tensor).toList := by
  unfold getTensorEpochNodes
  cases s.writer tensor with
  | some node => simp
  | none =>
    by_cases absent : s.readers tensor = []
    · simp [absent]
    · simp only [absent, if_false, Option.toList_none]
      exact if_neg (by omega)

/-- What the output adds: the writer if there is one, every reader otherwise. -/
theorem mem_epochNodes_iff (node : Nat) :
    node ∈ (s.getTensorEpochNodes tensor).1.getD [] ↔
      s.writer tensor = some node ∨ (s.writer tensor = none ∧ node ∈ s.readers tensor) := by
  unfold getTensorEpochNodes
  cases s.writer tensor with
  | some writer => simp [eq_comm]
  | none => by_cases absent : s.readers tensor = [] <;> simp [absent]

end TensorExecState

namespace DirectedBoostGraph

variable (g : DirectedBoostGraph)

/-- The accesses a vertex registered when its operation was added; none for a
null vertex. -/
def vertexAccesses (vertex : Nat) : List (Nat × TensorAccess) :=
  ((g.getNodeProperties vertex).map fun node => node.op.accesses vertex).getD []

/-- The accesses of the vertices below `bound`, in vertex order. -/
def accessesBelow (bound : Nat) : List (Nat × TensorAccess) :=
  (List.range bound).flatMap g.vertexAccesses

/-- The access history of the graph: its operations' accesses in vertex order. -/
def accessLog : List (Nat × TensorAccess) := g.accessesBelow g.getNumNodes

/-- The execution state is the replay of the graph's access history. -/
def TracksAccesses : Prop :=
  g.execState = g.accessLog.foldl TensorExecState.registerAccess TensorExecState.empty

/-- No vertex beyond the vertex vector has a node record. -/
theorem getNodeProperties_of_le {vertex : Nat} (beyond : g.getNumNodes ≤ vertex) :
    g.getNodeProperties vertex = none := by
  simp [getNodeProperties, List.getElem?_eq_none beyond]

/-- A vertex with a node record exists. -/
theorem lt_getNumNodes_of_getNodeProperties {vertex : Nat} {node : TensorOpNode}
    (stored : g.getNodeProperties vertex = some node) : vertex < g.getNumNodes :=
  Nat.lt_of_not_le fun beyond => by simp [g.getNodeProperties_of_le beyond] at stored

/-- The accesses below `bound + 1` are those below `bound`, then those of vertex `bound`. -/
theorem accessesBelow_succ (bound : Nat) :
    g.accessesBelow (bound + 1) = g.accessesBelow bound ++ g.vertexAccesses bound := by
  simp [accessesBelow, List.range_succ, List.flatMap_append]

/-- The accesses below a bound depend only on the node records below it. -/
theorem accessesBelow_congr {h : DirectedBoostGraph} {bound : Nat}
    (same : ∀ v < bound, g.getNodeProperties v = h.getNodeProperties v) :
    g.accessesBelow bound = h.accessesBelow bound := by
  induction bound with
  | zero => rfl
  | succ bound inductionHypothesis =>
    rw [accessesBelow_succ, accessesBelow_succ, vertexAccesses, vertexAccesses,
      same bound (Nat.lt_succ_self _), inductionHypothesis fun v below => same v (by omega)]

/-- Null vertices register nothing. -/
theorem accessesBelow_of_null {bound : Nat}
    (null : ∀ v, bound ≤ v → g.getNodeProperties v = none) (extra : Nat) :
    g.accessesBelow (bound + extra) = g.accessesBelow bound := by
  induction extra with
  | zero => rfl
  | succ extra inductionHypothesis =>
    rw [← Nat.add_assoc, accessesBelow_succ, inductionHypothesis, vertexAccesses,
      null _ (Nat.le_add_right _ _), Option.map_none', Option.getD_none, List.append_nil]

/-- Graphs with the same node records have the same access history. -/
theorem accessLog_congr {h : DirectedBoostGraph}
    (same : ∀ v, g.getNodeProperties v = h.getNodeProperties v) : g.accessLog = h.accessLog := by
  have covers : ∀ k : DirectedBoostGraph, ∀ bound, k.getNumNodes ≤ bound →
      k.accessLog = k.accessesBelow bound := fun k bound covered => by
    obtain ⟨extra, rfl⟩ := Nat.exists_eq_add_of_le covered
    exact (k.accessesBelow_of_null (fun v beyond => k.getNodeProperties_of_le beyond) extra).symm
  rw [covers g _ (Nat.le_max_left g.getNumNodes h.getNumNodes),
    covers h _ (Nat.le_max_right g.getNumNodes h.getNumNodes)]
  exact g.accessesBelow_congr fun v _ => same v

/-- The input scans register the reads of the inputs in order. -/
@[simp] theorem execState_foldl_scanInput (vid : Nat) (tensors : List Nat) :
    (tensors.foldl (scanInput vid) g).execState =
      tensors.foldl (fun s tensor => s.registerTensorRead tensor vid) g.execState := by
  induction tensors generalizing g <;> simp_all

/-- `addOperation` registers the write of the output, then the reads of the inputs. -/
theorem execState_addOperation (op : TensorOperation) :
    (g.addOperation op).2.execState =
      (op.accesses g.getNumNodes).foldl TensorExecState.registerAccess g.execState := by
  simp [addOperation, TensorOperation.accesses, List.foldl_map, TensorExecState.registerAccess]

/-- `addOperation` appends the accesses of its new vertex to the history. -/
theorem accessLog_addOperation (op : TensorOperation) :
    (g.addOperation op).2.accessLog = g.accessLog ++ op.accesses g.getNumNodes := by
  have stored := g.getNodeProperties_addOperation op g.getNumNodes
  rw [if_pos rfl] at stored
  have earlier : (g.addOperation op).2.accessesBelow g.getNumNodes = g.accessLog :=
    accessesBelow_congr _ fun v below => by rw [getNodeProperties_addOperation, if_neg (by omega)]
  obtain ⟨extra, grown⟩ := Nat.exists_eq_add_of_le
    ((g.addOperation op).2.lt_getNumNodes_of_getNodeProperties stored)
  rw [accessLog, grown, accessesBelow_of_null _ (fun v beyond => by
      rw [getNodeProperties_addOperation, if_neg (by omega), g.getNodeProperties_of_le (by omega)]),
    accessesBelow_succ, vertexAccesses, stored, earlier]
  rfl

/-- The input scans of an existing vertex add, to that vertex only, the writer
of each input, when the execution state names existing vertices only. Reads
keep every writer, so each input sees the writer left by the output's scan. -/
theorem getNeighborList_foldl_scanInput (vid : Nat) (tensors : List Nat) (vertex : Nat)
    (below : g.execState.NamesBelow g.getNumNodes) (source : vid < g.getNumNodes) :
    (tensors.foldl (scanInput vid) g).getNeighborList vertex = g.getNeighborList vertex ++
      if vertex = vid then tensors.flatMap fun tensor => (g.execState.writer tensor).toList
      else [] := by
  induction tensors generalizing g with
  | nil => simp
  | cons tensor rest inductionHypothesis =>
    have writers node := (below tensor node).1
    have count := g.getNumNodes_scanInput vid tensor source writers
    have read : (scanInput vid g tensor).execState.NamesBelow (scanInput vid g tensor).getNumNodes := by
      rw [count, execState_scanInput]
      exact below.registerTensorRead source
    rw [List.foldl_cons, inductionHypothesis _ read (count ▸ source),
      getNeighborList_scanInput _ _ _ _ source writers, execState_scanInput,
      TensorExecState.registerTensorRead_writer]
    by_cases own : vertex = vid <;> simp [own, TensorExecState.writeEpochNodes]

/-- The dependencies `addOperation` adds when the execution state names existing
vertices only: all go out of the new vertex, first the epoch nodes of the
output, then the writer of each input after the output's write. -/
theorem getNeighborList_addOperation (below : g.execState.NamesBelow g.getNumNodes)
    (op : TensorOperation) (vertex : Nat) :
    (g.addOperation op).2.getNeighborList vertex = g.getNeighborList vertex ++
      if vertex = g.getNumNodes then
        (g.execState.getTensorEpochNodes op.output).1.getD [] ++ op.inputs.flatMap fun tensor =>
          ((g.execState.registerTensorWrite op.output g.getNumNodes).writer tensor).toList
      else [] := by
  obtain ⟨count, written⟩ := scanOutput_count below op
  rw [addOperation, getNeighborList_foldl_scanInput _ _ _ _ written (by omega),
    getNeighborList_scanOutput _ _ _ _ (by simp)
      (by simpa using (below.mono (Nat.le_succ _)).epoch_nodes op.output),
    getNeighborList_addNode, execState_scanOutput, execState_addNode]
  by_cases own : vertex = g.getNumNodes <;> simp [own]

variable {g}

/-- Every public call keeps the execution state equal to the one the access history gives. -/
theorem TracksAccesses.apply (tracked : g.TracksAccesses) :
    ∀ call, (g.apply call).TracksAccesses
  | .addOperation op => by
    rw [TracksAccesses, DirectedBoostGraph.apply, execState_addOperation, accessLog_addOperation,
      List.foldl_append, tracked]
  | .addDependency dependent dependee => by
    rw [TracksAccesses, DirectedBoostGraph.apply, execState_addDependency,
      accessLog_congr _ (getNodeProperties_addDependency g dependent dependee)]
    exact tracked
  | .clear => rfl

/-- In every graph the public calls build, the execution state is the one the access history gives. -/
theorem tracksAccesses_run (calls : List GraphCall) : (run calls).TracksAccesses := by
  suffices ∀ g : DirectedBoostGraph, g.TracksAccesses → (calls.foldl apply g).TracksAccesses from
    this empty rfl
  induction calls with
  | nil => exact fun _ tracked => tracked
  | cons call rest inductionHypothesis =>
    exact fun g tracked => inductionHypothesis _ (tracked.apply call)

/-- In every graph the public calls build, the execution state answers from the
access history of the graph's operations since the last `clear`: the writer of
a tensor is the vertex of its last write, and its readers are exactly the
vertices that read it since that write, or since the `clear` when there was
none. -/
theorem execState_tracks_accesses (calls : List GraphCall) (tensor : Nat) :
    (run calls).execState.writer tensor = lastWrite (run calls).accessLog tensor ∧
      ∀ v, v ∈ (run calls).execState.readers tensor ↔
        v ∈ readsSince (run calls).accessLog tensor := by
  rw [tracksAccesses_run calls]
  exact foldl_registerAccess _ tensor

/-- In every graph the public calls build, `addOperation` adds exactly the
hazard dependencies the access history asks for, all out of the new vertex:
the last writer of the output, or, when the output has no writer, every reader
of it since the last clear; the last writer of each other input; and the new
vertex itself when it reads its own output. Every other vertex keeps its
dependencies. -/
theorem addOperation_dependencies (calls : List GraphCall) (op : TensorOperation)
    (vertex dependee : Nat) :
    dependee ∈ ((run calls).addOperation op).2.getNeighborList vertex ↔
      dependee ∈ (run calls).getNeighborList vertex ∨
        vertex = (run calls).getNumNodes ∧
          (lastWrite (run calls).accessLog op.output = some dependee ∨
            (lastWrite (run calls).accessLog op.output = none ∧
              dependee ∈ readsSince (run calls).accessLog op.output) ∨
            ∃ tensor ∈ op.inputs,
              (tensor = op.output ∧ dependee = (run calls).getNumNodes) ∨
              (tensor ≠ op.output ∧ lastWrite (run calls).accessLog tensor = some dependee)) := by
  have writer tensor := (foldl_registerAccess (run calls).accessLog tensor).1
  have readers tensor := (foldl_registerAccess (run calls).accessLog tensor).2
  rw [← tracksAccesses_run calls] at writer readers
  rw [getNeighborList_addOperation _ (namesBelow_run calls), List.mem_append]
  by_cases own : vertex = (run calls).getNumNodes
  · simp only [own, if_true, true_and, List.mem_append, TensorExecState.mem_epochNodes_iff, writer,
      readers, List.mem_flatMap, TensorExecState.registerTensorWrite_writer, Option.mem_toList,
      Option.mem_def, ite_eq_iff, Option.some.injEq, or_assoc, ne_eq,
      @eq_comm _ (run calls).getNumNodes dependee]
  · simp [own]

end DirectedBoostGraph

end Exatn.Runtime
