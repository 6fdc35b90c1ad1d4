import Exatn.Numerics.MergeSchedule
import Exatn.Numerics.PriorityQueue

/-!
# The heuristic contraction-sequence planner

`ContractionSeqOptimizerHeuro::determineContractionSequence` searches for a
cheap order of pairwise contractions with a bounded beam. A path is a network
state, the sequence of contraction triples that led to it and its total cost.
Each pass takes a fresh id from the caller's generator, expands every path of
the beam by every pair of non-output factors, pushes the children into the
bounded worst-on-top queue, and then drains the queue into the next beam, or,
on the last pass, pops it down to one path and returns that path's sequence
and cost.

The number of passes is `getNumTensors() - 1` in `unsigned int` arithmetic,
so a network without input factors asks for `2^32 - 1` passes. One queue serves
every pass: it is empty at the start of each, since each pass ends by emptying
it, but its history of pushes and pops runs on, and the tie rule may read it. A failed
merge stops the planner at its `assert`; reading the top of an empty queue is
undefined behaviour. `PlannerError` names the two.
-/

namespace Exatn.Numerics

/-- A contraction path: the network state, the contraction sequence that led to
it and its total cost. -/
structure ContrPath (Tensor : Type) where
  network : TensorNetwork Tensor
  sequence : List ContrTriple
  cost : Nat

/-- Where the planner stops instead of returning. -/
inductive PlannerError
  | mergeFailed
  | topOfEmptyQueue
deriving DecidableEq, Repr

section Planner

variable {Tensor : Type} (kind : TensorKind Tensor) (rule : TopRule)

/-- The inner loop body: the child path that contracts factors `i` and `j` of a
parent path into the pass's intermediate id, recording the output id 0 on the
last pass; `none` when the merge fails. -/
def contractPair (lastPass : Bool) (intermediateId : UInt32) (parent : ContrPath Tensor)
    (i j : UInt32 × Tensor) : Option (ContrPath Tensor) :=
  (parent.network.mergeTensors kind i.1 j.1 intermediateId).map fun tensNet =>
    { network := tensNet
      sequence := parent.sequence ++ [⟨if lastPass then 0 else intermediateId, i.1, j.1⟩]
      cost := kind.getTensorContractionCost i.2 j.2 + parent.cost }

/-- The children of a parent path, in loop order. -/
def children (lastPass : Bool) (intermediateId : UInt32) (parent : ContrPath Tensor) :
    List (ContrPath Tensor) :=
  (factorPairs parent.network.tensors).filterMap fun pair =>
    contractPair kind lastPass intermediateId parent pair.1 pair.2

/-- Whether every merge of a parent path's expansion succeeds. -/
def mergesSucceed (intermediateId : UInt32) (parent : ContrPath Tensor) : Bool :=
  (factorPairs parent.network.tensors).all fun pair =>
    (parent.network.mergeTensors kind pair.1.1 pair.2.1 intermediateId).isSome

/-- The candidate loops of one pass: every child of every input path is pushed
into the bounded queue. A failed merge stops the planner. -/
def collectPaths (numWalkers : UInt32) (lastPass : Bool) (intermediateId : UInt32)
    (priq : PriorityQueue (ContrPath Tensor)) (inputPaths : List (ContrPath Tensor)) :
    Except PlannerError (PriorityQueue (ContrPath Tensor)) :=
  if inputPaths.all (mergesSucceed kind intermediateId) then
    .ok ((inputPaths.flatMap (children kind lastPass intermediateId)).foldl
      (boundedPush rule ContrPath.cost numWalkers.toNat) priq)
  else .error .mergeFailed

/-- The passes `pass, pass + 1, ...` of the loop, `remaining` of them, from the
queue and the input paths. The result holds `contr_seq` and `flops` as the last
pass sets them. -/
def passLoop (numWalkers : UInt32) (generator : Nat → UInt32) (numContractions : Nat) :
    Nat → Nat → PriorityQueue (ContrPath Tensor) → List (ContrPath Tensor) →
      List ContrTriple × Nat → Except PlannerError (List ContrTriple × Nat)
  | 0, _, _, _, result => .ok result
  | remaining + 1, pass, priq, inputPaths, result =>
    match collectPaths kind rule numWalkers (decide (pass = numContractions - 1)) (generator pass)
        priq inputPaths with
    | .error error => .error error
    | .ok priq =>
      if pass = numContractions - 1 then
        let priq := popToOne rule ContrPath.cost priq.entries.length priq
        match top rule ContrPath.cost priq with
        | some best =>
          passLoop numWalkers generator numContractions remaining (pass + 1)
            (pop rule ContrPath.cost priq) [] (best.sequence, best.cost)
        | none => .error .topOfEmptyQueue
      else
        let drained := drain rule ContrPath.cost priq.entries.length priq
        passLoop numWalkers generator numContractions remaining (pass + 1) drained.2 drained.1
          result

/-- `determineContractionSequence`: the contraction sequence `contr_seq` and the
returned cost `flops`. The generator's `p`-th output is the id it returns at
its `p`-th call, made at the start of pass `p`. -/
def determineContractionSequence (numWalkers : UInt32) (network : TensorNetwork Tensor)
    (generator : Nat → UInt32) : Except PlannerError (List ContrTriple × Nat) :=
  let numContractions := network.getNumTensors - 1
  if numContractions = 0 then .ok ([], 0)
  else
    passLoop kind rule numWalkers generator numContractions.toNat numContractions.toNat 0
      ⟨[], []⟩ [⟨network, [], 0⟩] ([], 0)

end Planner

end Exatn.Numerics
