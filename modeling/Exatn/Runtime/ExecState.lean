import Mathlib.Logic.Function.Basic
import Mathlib.Data.List.Basic

/-!
# Tensor operations and the tensor execution state

The DAG sees a tensor operation only through its tensor operands, each
identified by its hash: operand 0 is the output and operands 1.. are the
inputs. Opcode, scalars and index pattern are not read by the DAG.

The execution state keeps, per tensor, the epoch of its last accesses. Its
implementation file is not part of the sources at hand, so it is modelled from
the table of the specification: a write makes the vertex the single writer and
drops the readers, a read adds the vertex to the readers, and the epoch query
answers with the writer during a write epoch and with the readers otherwise.
Retirement belongs to the graph executor and is not modelled.
-/

namespace Exatn.Runtime

/-- The operands of a tensor operation as the DAG reads them. Operand 0 always
exists; the remaining operands are the inputs in operand order. -/
structure TensorOperation where
  output : Nat
  inputs : List Nat
  deriving DecidableEq, Repr

/-- The DAG node record: the operation and the vertex id stored by `setId`.
Execution flags belong to the scheduler and are not modelled. -/
structure TensorOpNode where
  op : TensorOperation
  id : Nat
  deriving DecidableEq, Repr

/-- Modelled from the spec: `TensorExecState` is not among the sources. Per
tensor, the writer of the current write epoch, if there is one, and the set of
readers registered since the last write. -/
structure TensorExecState where
  writer : Nat → Option Nat
  readers : Nat → List Nat

namespace TensorExecState

/-- The state of a new or cleared graph: no tensor has been accessed. -/
def empty : TensorExecState := ⟨fun _ => none, fun _ => []⟩

/-- Modelled from the spec: the epoch nodes of a tensor and the epoch tag. A
writer gives the write epoch `({writer}, -1)`; otherwise the readers form a read
epoch with a nonnegative tag; no readers at all is reported as absent, with the
read-epoch tag 0. -/
def getTensorEpochNodes (s : TensorExecState) (tensor : Nat) :
    Option (List Nat) × Int :=
  match s.writer tensor with
  | some node => (some [node], -1)
  | none => if s.readers tensor = [] then (none, 0)
      else (some (s.readers tensor), (s.readers tensor).length)

/-- Modelled from the spec: the vertex becomes the tensor's writer and the
tensor's readers are cleared. -/
def registerTensorWrite (s : TensorExecState) (tensor : Nat) (node : Nat) :
    TensorExecState :=
  ⟨Function.update s.writer tensor (some node), Function.update s.readers tensor []⟩

/-- Modelled from the spec: the vertex is added to the set of readers. -/
def registerTensorRead (s : TensorExecState) (tensor : Nat) (node : Nat) :
    TensorExecState :=
  { s with readers := Function.update s.readers tensor ((s.readers tensor).insert node) }

/-- A new execution state records no writer. -/
@[simp] theorem empty_writer (tensor : Nat) : empty.writer tensor = none := rfl

/-- A new execution state records no reader. -/
@[simp] theorem empty_readers (tensor : Nat) : empty.readers tensor = [] := rfl

/-- A write makes its node the tensor's writer and leaves other writers alone. -/
@[simp] theorem registerTensorWrite_writer (s : TensorExecState) (tensor other : Nat)
    (node : Nat) :
    (s.registerTensorWrite tensor node).writer other =
      if other = tensor then some node else s.writer other := by
  simp [registerTensorWrite, Function.update_apply]

/-- A write clears the tensor's readers and leaves other readers alone. -/
@[simp] theorem registerTensorWrite_readers (s : TensorExecState) (tensor other : Nat)
    (node : Nat) :
    (s.registerTensorWrite tensor node).readers other =
      if other = tensor then [] else s.readers other := by
  simp [registerTensorWrite, Function.update_apply]

/-- A read changes no writer. -/
@[simp] theorem registerTensorRead_writer (s : TensorExecState) (tensor : Nat)
    (node : Nat) : (s.registerTensorRead tensor node).writer = s.writer := rfl

/-- A read adds its node to the tensor's readers, once. -/
@[simp] theorem registerTensorRead_readers (s : TensorExecState) (tensor other : Nat)
    (node : Nat) :
    (s.registerTensorRead tensor node).readers other =
      if other = tensor then (s.readers tensor).insert node else s.readers other := by
  simp [registerTensorRead, Function.update_apply]

/-- A negative epoch tag is exactly a write epoch, whose only node is the writer. -/
theorem epoch_neg_iff (s : TensorExecState) (tensor : Nat) :
    (s.getTensorEpochNodes tensor).2 < 0 ↔
      ∃ node, s.writer tensor = some node ∧
        (s.getTensorEpochNodes tensor).1 = some [node] := by
  unfold getTensorEpochNodes
  cases s.writer tensor with
  | some node => simp
  | none =>
    by_cases absent : s.readers tensor = []
    · simp [absent]
    · simp only [absent, if_false, reduceCtorEq, false_and, exists_false, iff_false]
      omega

/-- Every epoch node is the tensor's writer or, when there is no writer, one of
its readers. -/
theorem mem_epoch_nodes (s : TensorExecState) (tensor : Nat) {nodes : List Nat}
    (returned : (s.getTensorEpochNodes tensor).1 = some nodes) {node : Nat}
    (member : node ∈ nodes) :
    s.writer tensor = some node ∨ (s.writer tensor = none ∧ node ∈ s.readers tensor) := by
  unfold getTensorEpochNodes at returned
  cases writing : s.writer tensor with
  | some writer =>
    simp only [writing, Option.some.injEq] at returned
    subst nodes
    simp_all
  | none =>
    simp only [writing] at returned
    split at returned
    · cases returned
    · cases returned
      exact .inr ⟨rfl, member⟩

/-- The execution state names only vertices below `bound`. -/
def NamesBelow (s : TensorExecState) (bound : Nat) : Prop :=
  ∀ tensor node, (s.writer tensor = some node → node < bound) ∧
    (node ∈ s.readers tensor → node < bound)

variable {s : TensorExecState} {bound : Nat}

/-- A new execution state names no vertex. -/
theorem namesBelow_empty : empty.NamesBelow bound := by
  intro _ _
  exact ⟨fun written => (by cases written), fun read => (by cases read)⟩

/-- A state naming vertices below a bound names them below any larger one. -/
theorem NamesBelow.mono (below : s.NamesBelow bound) {larger : Nat} (grown : bound ≤ larger) :
    s.NamesBelow larger :=
  fun tensor node => (below tensor node).imp (fun h w => Nat.lt_of_lt_of_le (h w) grown)
    (fun h r => Nat.lt_of_lt_of_le (h r) grown)

/-- Registering a write by a vertex below the bound keeps the state below it. -/
theorem NamesBelow.registerTensorWrite (below : s.NamesBelow bound) {tensor vid : Nat}
    (inRange : vid < bound) : (s.registerTensorWrite tensor vid).NamesBelow bound := by
  intro other node
  by_cases same : other = tensor
  · simp only [registerTensorWrite_writer, registerTensorWrite_readers, if_pos same]
    exact ⟨fun written => Option.some.inj written ▸ inRange, fun read => by cases read⟩
  · simpa only [registerTensorWrite_writer, registerTensorWrite_readers, if_neg same]
      using below other node

/-- Registering a read by a vertex below the bound keeps the state below it. -/
theorem NamesBelow.registerTensorRead (below : s.NamesBelow bound) {tensor vid : Nat}
    (inRange : vid < bound) : (s.registerTensorRead tensor vid).NamesBelow bound := by
  intro other node
  by_cases same : other = tensor
  · subst other
    refine ⟨(below _ node).1, fun read => ?_⟩
    simp only [registerTensorRead_readers, if_true, List.mem_insert_iff] at read
    rcases read with rfl | old
    · exact inRange
    · exact (below _ node).2 old
  · simpa only [registerTensorRead_writer, registerTensorRead_readers, if_neg same]
      using below other node

/-- The epoch nodes of any tensor are below the bound. -/
theorem NamesBelow.epoch_nodes (below : s.NamesBelow bound) (tensor : Nat) :
    ∀ node ∈ (s.getTensorEpochNodes tensor).1.getD [], node < bound := by
  intro node member
  cases returned : (s.getTensorEpochNodes tensor).1 with
  | none => simp [returned] at member
  | some nodes =>
    rw [returned, Option.getD_some] at member
    rcases s.mem_epoch_nodes tensor returned member with written | ⟨_, read⟩
    · exact (below tensor node).1 written
    · exact (below tensor node).2 read

end TensorExecState

end Exatn.Runtime
