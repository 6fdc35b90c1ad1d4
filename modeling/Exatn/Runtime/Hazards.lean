import Exatn.Runtime.DirectedBoostGraph
import Mathlib.Logic.Relation

/-!
# Hazard edges of graphs built from submitted operations

A graph built only by `addOperation` and `clear` keeps two invariants. The
execution state refers to existing vertices in the role it records: a writer
has the tensor as its output and a reader has it among its inputs. Every edge
joins two existing vertices whose operations are in hazard on a common tensor.
Every edge also points to an earlier vertex, except that an operation whose
output is also one of its inputs depends on itself: the write of the output is
registered before the inputs are scanned, so the input finds the new vertex as
the tensor's writer.

The epoch table returns only the writer during a write epoch, so a writer that
follows readers of a written tensor depends on the previous writer and not on
those readers, and no path joins it to them.
-/

namespace Exatn.Runtime

namespace TensorOperation

/-- The operation writes the tensor or reads it. -/
def Accesses (op : TensorOperation) (tensor : Nat) : Prop :=
  op.output = tensor ∨ tensor ∈ op.inputs

/-- A data hazard: a tensor both operations access and at least one of them
writes (read-after-write, write-after-read or write-after-write). -/
def Hazard (x y : TensorOperation) : Prop :=
  ∃ tensor, x.Accesses tensor ∧ y.Accesses tensor ∧ (x.output = tensor ∨ y.output = tensor)

end TensorOperation

/-- The calls that build a graph from submitted operations. -/
inductive SubmitCall
  | addOperation (op : TensorOperation)
  | clear

/-- A submission as a public graph call. -/
def SubmitCall.toGraphCall : SubmitCall → GraphCall
  | .addOperation op => .addOperation op
  | .clear => .clear

namespace DirectedBoostGraph

/-- The vertex exists and its node record performs an operation with `role`. -/
def Live (g : DirectedBoostGraph) (vertex : Nat) (role : TensorOperation → Prop) : Prop :=
  vertex < g.getNumNodes ∧ ∃ node, g.getNodeProperties vertex = some node ∧ role node.op

/-- Every vertex the execution state records exists and accesses the tensor in
the recorded role. -/
def EpochSound (g : DirectedBoostGraph) : Prop :=
  (∀ tensor node, g.execState.writer tensor = some node →
    g.Live node (·.output = tensor)) ∧
  (∀ tensor node, node ∈ g.execState.readers tensor →
    g.Live node (tensor ∈ ·.inputs))

/-- Every edge joins two existing vertices whose operations are in hazard, and
points to an earlier vertex unless it is the self-edge of an operation whose
output is one of its inputs. -/
def EdgesSound (g : DirectedBoostGraph) : Prop :=
  ∀ a b, b ∈ g.getNeighborList a →
    a < g.getNumNodes ∧ b < g.getNumNodes ∧
    (∃ x y, g.getNodeProperties a = some x ∧ g.getNodeProperties b = some y ∧
      x.op.Hazard y.op) ∧
    (b < a ∨ b = a ∧ ∃ x, g.getNodeProperties a = some x ∧ x.op.output ∈ x.op.inputs)

variable {g : DirectedBoostGraph}

/-- Liveness reads only the vertex count and the node records. -/
theorem live_congr {other : DirectedBoostGraph} (count : other.getNumNodes = g.getNumNodes)
    (records : ∀ vertex, other.getNodeProperties vertex = g.getNodeProperties vertex)
    (vertex : Nat) (role : TensorOperation → Prop) : other.Live vertex role ↔ g.Live vertex role := by
  simp [Live, count, records]

/-- Appending a node keeps every existing vertex live in its role. -/
theorem Live.addNode {vertex : Nat} {role : TensorOperation → Prop} (live : g.Live vertex role)
    (op : TensorOperation) : (g.addNode op).Live vertex role := by
  obtain ⟨exists_, node, record, performs⟩ := live
  refine ⟨by simp; omega, node, ?_, performs⟩
  rw [getNodeProperties_addNode, if_neg (by omega), record]

/-- The new node is live with the role its operation has. -/
theorem live_addNode_self (op : TensorOperation) {role : TensorOperation → Prop} (performs : role op) :
    (g.addNode op).Live g.getNumNodes role :=
  ⟨by simp, ⟨op, g.getNumNodes⟩, by simp, performs⟩

/-- Adding a vertex keeps every recorded vertex live in its role. -/
theorem EpochSound.addNode (sound : g.EpochSound) (op : TensorOperation) :
    (g.addNode op).EpochSound :=
  ⟨fun tensor node written => (sound.1 tensor node written).addNode op,
   fun tensor node read => (sound.2 tensor node read).addNode op⟩

/-- Adding a vertex with no out-edge keeps the edge invariant. -/
theorem EdgesSound.addNode (sound : g.EdgesSound) (op : TensorOperation) :
    (g.addNode op).EdgesSound := by
  intro a b edge
  simp only [getNeighborList_addNode] at edge
  obtain ⟨source, target, ⟨x, y, recordA, recordB, hazard⟩, order⟩ := sound a b edge
  simp only [getNumNodes_addNode, getNodeProperties_addNode, if_neg (Nat.ne_of_lt source),
    if_neg (Nat.ne_of_lt target)]
  exact ⟨by omega, by omega, ⟨x, y, recordA, recordB, hazard⟩, order⟩

/-- Edges from `vid` to live vertices in hazard with its operation, each earlier
than `vid` or `vid` itself when its output is one of its inputs, keep the edge
invariant and the vertex count. -/
theorem EdgesSound.addDependencies (sound : g.EdgesSound) {vid : Nat} {x : TensorOpNode}
    (source : vid < g.getNumNodes) (record : g.getNodeProperties vid = some x) (nodes : List Nat)
    (targets : ∀ node ∈ nodes, g.Live node x.op.Hazard ∧
      (node < vid ∨ node = vid ∧ x.op.output ∈ x.op.inputs)) :
    (g.addDependencies vid nodes).EdgesSound ∧
      (g.addDependencies vid nodes).getNumNodes = g.getNumNodes := by
  have inRange node member := (targets node member).1.1
  have count := g.getNumNodes_addDependencies vid nodes source inRange
  refine ⟨?_, count⟩
  intro a b edge
  simp only [g.getNeighborList_addDependencies vid nodes a source inRange, List.mem_append] at edge
  simp only [count, getNodeProperties_addDependencies]
  rcases edge with old | added
  · exact sound a b old
  · split at added
    · next same =>
      subst a
      obtain ⟨⟨target, y, recordB, hazard⟩, order⟩ := targets b added
      exact ⟨source, target, ⟨x, y, record, recordB, hazard⟩,
        order.imp_right fun ⟨self, aliased⟩ => ⟨self, x, record, aliased⟩⟩
    · cases added

/-- Liveness does not read the execution state. -/
@[simp] theorem live_setExecState (s : TensorExecState) (vertex : Nat)
    (role : TensorOperation → Prop) :
    ({ g with execState := s } : DirectedBoostGraph).Live vertex role ↔ g.Live vertex role :=
  Iff.rfl

/-- The edge invariant does not read the execution state. -/
theorem EdgesSound.setExecState (sound : g.EdgesSound) (s : TensorExecState) :
    ({ g with execState := s } : DirectedBoostGraph).EdgesSound :=
  sound

/-- Registering a live writer in its role keeps the execution state sound. -/
theorem EpochSound.registerTensorWrite (sound : g.EpochSound) {tensor vid : Nat}
    (live : g.Live vid (·.output = tensor)) :
    ({ g with execState := g.execState.registerTensorWrite tensor vid } :
      DirectedBoostGraph).EpochSound := by
  refine ⟨fun other node written => ?_, fun other node read => ?_⟩
  · simp only [TensorExecState.registerTensorWrite_writer] at written
    split at written
    · next same =>
      subst other
      cases written
      simpa using live
    · simpa using sound.1 other node written
  · simp only [TensorExecState.registerTensorWrite_readers] at read
    split at read
    · cases read
    · simpa using sound.2 other node read

/-- Registering a live reader in its role keeps the execution state sound. -/
theorem EpochSound.registerTensorRead (sound : g.EpochSound) {tensor vid : Nat}
    (live : g.Live vid (tensor ∈ ·.inputs)) :
    ({ g with execState := g.execState.registerTensorRead tensor vid } :
      DirectedBoostGraph).EpochSound := by
  refine ⟨fun other node written => ?_, fun other node read => ?_⟩
  · simpa using sound.1 other node written
  · simp only [TensorExecState.registerTensorRead_readers] at read
    split at read
    · next same =>
      subst other
      rcases List.mem_insert_iff.mp read with rfl | old
      · simpa using live
      · simpa using sound.2 tensor node old
    · simpa using sound.2 other node read

/-- Edges added by `addDependencies` keep the execution state sound. -/
theorem EpochSound.addDependencies (sound : g.EpochSound) {vid : Nat} {nodes : List Nat}
    (count : (g.addDependencies vid nodes).getNumNodes = g.getNumNodes) :
    (g.addDependencies vid nodes).EpochSound := by
  have same := live_congr count (g.getNodeProperties_addDependencies vid nodes)
  exact ⟨fun tensor node written => (same _ _).mpr (sound.1 tensor node (by simpa using written)),
    fun tensor node read => (same _ _).mpr (sound.2 tensor node (by simpa using read))⟩

/-- One input of the operation at the last vertex keeps both invariants, the
vertex count and the node records. -/
theorem scanInput_sound (epoch : g.EpochSound) (edges : g.EdgesSound) {op : TensorOperation}
    {vid : Nat} (last : vid + 1 = g.getNumNodes) (record : g.getNodeProperties vid = some ⟨op, vid⟩)
    {tensor : Nat} (input : tensor ∈ op.inputs) :
    (scanInput vid g tensor).EpochSound ∧ (scanInput vid g tensor).EdgesSound ∧
      (scanInput vid g tensor).getNumNodes = g.getNumNodes := by
  have reader : g.Live vid (tensor ∈ ·.inputs) := ⟨by omega, _, record, input⟩
  by_cases writing : (g.execState.getTensorEpochNodes tensor).2 < 0
  · obtain ⟨writer, written, nodes⟩ := (g.execState.epoch_neg_iff tensor).mp writing
    obtain ⟨below, y, recordY, output⟩ := epoch.1 tensor writer written
    have target : g.Live writer (TensorOpNode.op ⟨op, vid⟩).Hazard :=
      ⟨below, y, recordY, tensor, .inr input, .inl output, .inr output⟩
    have order : writer < vid ∨ writer = vid ∧ op.output ∈ op.inputs := by
      rcases Nat.lt_or_ge writer vid with earlier | later
      · exact .inl earlier
      · have self : writer = vid := by omega
        subst self
        rw [record, Option.some.injEq] at recordY
        subst recordY
        have aliased : op.output = tensor := output
        exact .inr ⟨rfl, aliased ▸ input⟩
    obtain ⟨sound, count⟩ := edges.addDependencies (by omega) record [writer]
      (by simpa using ⟨target, order⟩)
    simp only [scanInput, if_pos writing, nodes, Option.getD_some]
    refine ⟨(epoch.addDependencies count).registerTensorRead ?_, sound.setExecState _, count⟩
    exact (live_congr count (g.getNodeProperties_addDependencies vid _) _ _).mpr reader
  · simp only [scanInput, if_neg writing]
    exact ⟨epoch.registerTensorRead reader, edges.setExecState _, rfl⟩

/-- Scanning inputs of the operation at the last vertex keeps both invariants,
the vertex count and the node record of that vertex. -/
theorem scanInputs_sound {op : TensorOperation} {vid : Nat} (tensors : List Nat)
    (inputs : ∀ tensor ∈ tensors, tensor ∈ op.inputs) (epoch : g.EpochSound)
    (edges : g.EdgesSound) (last : vid + 1 = g.getNumNodes)
    (record : g.getNodeProperties vid = some ⟨op, vid⟩) :
    (tensors.foldl (scanInput vid) g).EpochSound ∧ (tensors.foldl (scanInput vid) g).EdgesSound ∧
      (tensors.foldl (scanInput vid) g).getNumNodes = g.getNumNodes ∧
      (tensors.foldl (scanInput vid) g).getNodeProperties vid = some ⟨op, vid⟩ := by
  induction tensors generalizing g with
  | nil => exact ⟨epoch, edges, rfl, record⟩
  | cons tensor rest inductionHypothesis =>
    obtain ⟨epoch', edges', count⟩ :=
      scanInput_sound epoch edges last record (inputs tensor (List.mem_cons_self _ _))
    obtain ⟨epoch'', edges'', count', record'⟩ := inductionHypothesis
      (fun other member => inputs other (List.mem_cons_of_mem _ member)) epoch' edges'
      (count ▸ last) (by simpa using record)
    exact ⟨epoch'', edges'', count'.trans count, record'⟩

/-- `addOperation` keeps both invariants. The output's epoch nodes are earlier
vertices in hazard with the new operation; every later edge is a
read-after-write edge of one of its inputs. -/
theorem addOperation_sound (epoch : g.EpochSound) (edges : g.EdgesSound) (op : TensorOperation) :
    (g.addOperation op).2.EpochSound ∧ (g.addOperation op).2.EdgesSound := by
  have record : (g.addNode op).getNodeProperties g.getNumNodes = some ⟨op, g.getNumNodes⟩ := by
    simp
  have targets : ∀ node ∈ ((g.addNode op).execState.getTensorEpochNodes op.output).1.getD [],
      (g.addNode op).Live node (TensorOpNode.op ⟨op, g.getNumNodes⟩).Hazard ∧
        (node < g.getNumNodes ∨ node = g.getNumNodes ∧ op.output ∈ op.inputs) := by
    intro node member
    cases returned : (g.execState.getTensorEpochNodes op.output).1 with
    | none => simp [returned] at member
    | some nodes =>
      simp only [execState_addNode, returned, Option.getD_some] at member
      rcases g.execState.mem_epoch_nodes op.output returned member with written | ⟨_, read⟩
      · obtain ⟨earlier, y, recordY, output⟩ := epoch.1 _ _ written
        exact ⟨Live.addNode ⟨earlier, y, recordY, op.output, .inl rfl, .inl output, .inl rfl⟩ op,
          .inl earlier⟩
      · obtain ⟨earlier, y, recordY, input⟩ := epoch.2 _ _ read
        exact ⟨Live.addNode ⟨earlier, y, recordY, op.output, .inl rfl, .inr input, .inl rfl⟩ op,
          .inl earlier⟩
  obtain ⟨edges', count⟩ := (edges.addNode op).addDependencies (by simp) record _ targets
  have epoch' : (scanOutput g.getNumNodes (g.addNode op) op.output).EpochSound :=
    ((epoch.addNode op).addDependencies count).registerTensorWrite
      ((live_congr count (by simp) _ _).mpr (live_addNode_self op rfl))
  exact (scanInputs_sound op.inputs (fun _ member => member) epoch' (edges'.setExecState _)
    (count.trans (g.getNumNodes_addNode op)).symm
    ((getNodeProperties_scanOutput _ _ _ _).trans record)).imp_right And.left

/-- A new graph records no vertex in its execution state. -/
theorem epochSound_empty : empty.EpochSound := by
  constructor <;> intro _ _ recorded <;> cases recorded

/-- A new graph has no edge. -/
theorem edgesSound_empty : empty.EdgesSound :=
  fun _ _ edge => by cases edge

/-- Both invariants hold on a new graph and are kept by every submission. -/
theorem submitted_sound (calls : List SubmitCall) (epoch : g.EpochSound)
    (edges : g.EdgesSound) :
    ((calls.map SubmitCall.toGraphCall).foldl apply g).EpochSound ∧
      ((calls.map SubmitCall.toGraphCall).foldl apply g).EdgesSound := by
  induction calls generalizing g with
  | nil => exact ⟨epoch, edges⟩
  | cons call rest inductionHypothesis =>
    cases call with
    | addOperation op =>
      obtain ⟨epoch', edges'⟩ := addOperation_sound epoch edges op
      exact inductionHypothesis epoch' edges'
    | clear => exact inductionHypothesis epochSound_empty edgesSound_empty

/-- In every graph built from a new graph by `addOperation` and `clear`, the
execution state records only existing vertices, each in the role it records,
and every edge joins two existing vertices whose operations are in hazard. -/
theorem submitted_graph_sound (calls : List SubmitCall) :
    (run (calls.map SubmitCall.toGraphCall)).EpochSound ∧
      (run (calls.map SubmitCall.toGraphCall)).EdgesSound :=
  submitted_sound calls epochSound_empty edgesSound_empty

/-- An in-place update, whose output tensor is also one of its inputs, depends
on itself. -/
theorem aliased_update_self_edge :
    (run [.addOperation ⟨5, [5]⟩]).dependencyExists 0 0 = true := by
  decide

/-- A path ends with an edge into its last vertex. -/
theorem not_reaches_of_no_edge_into {edge : Nat → Nat → Prop} {target : Nat}
    (none_into : ∀ vertex, ¬ edge vertex target) (start : Nat) :
    ¬ Relation.TransGen edge start target := fun path => by
  obtain ⟨last, -, into⟩ := Relation.TransGen.tail'_iff.mp path
  exact none_into last into

/-- Operation 0 writes tensor 7, operation 1 reads it and writes tensor 8,
operation 2 writes tensor 7 again. -/
def writeReadWrite : List GraphCall :=
  [.addOperation ⟨7, []⟩, .addOperation ⟨8, [7]⟩, .addOperation ⟨7, []⟩]

/-- After write, read, write of tensor 7, the reader and the second writer are
in a write-after-read hazard, yet the second writer depends on the first writer
only and no path leads from it to the reader. -/
theorem write_after_read_unordered :
    (run writeReadWrite).getNodeProperties 1 = some ⟨⟨8, [7]⟩, 1⟩ ∧
      (run writeReadWrite).getNodeProperties 2 = some ⟨⟨7, []⟩, 2⟩ ∧
      TensorOperation.Hazard ⟨7, []⟩ ⟨8, [7]⟩ ∧
      ¬ Relation.TransGen (fun a b => (run writeReadWrite).dependencyExists a b = true) 2 1 := by
  have count : (run writeReadWrite).getNumNodes = 3 := by decide
  refine ⟨by decide, by decide, ⟨7, .inl rfl, .inr (by simp), .inl rfl⟩,
    not_reaches_of_no_edge_into (fun vertex => ?_) 2⟩
  match vertex with
  | 0 | 1 | 2 => decide
  | vertex + 3 =>
    simp [dependencyExists, getNeighborList_of_le (run writeReadWrite) (by omega : _ ≤ vertex + 3)]

end DirectedBoostGraph

end Exatn.Runtime
