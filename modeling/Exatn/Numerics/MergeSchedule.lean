import Exatn.Numerics.TensorNetwork

/-!
# Merge schedules and their cost

What the planner is for: a schedule contracts the `n` input factors of a
network to one by `n - 1` pairwise merges of non-output factors, merge `p`
writing into the `p`-th id of the caller's generator, and its cost is the sum
of the pairwise contraction costs. `replay` performs a list of merges as a
left fold, so extending a list by one merge is one `replayStep`.

When the generator's ids are fresh (non-zero, new to the network and distinct),
a replay keeps the invariant `Reached`: each merge took one factor away, and
every id is the output's, an input factor's or a generator id already used.
From it, every merge of two present non-output factors succeeds.
-/

namespace Exatn.Numerics

/-- The state of a replay: the network reached, the number of merges done and
their summed cost. -/
structure Replayed (Tensor : Type) where
  network : TensorNetwork Tensor
  steps : Nat
  total : Nat

section Replay

variable {Tensor : Type} (kind : TensorKind Tensor) (generator : Nat → UInt32)

/-- One merge of a replay: merge `p` fuses its two tensors into the generator's
`p`-th id and adds their contraction cost. -/
def replayStep : Option (Replayed Tensor) → UInt32 × UInt32 → Option (Replayed Tensor)
  | none, _ => none
  | some reached, (leftId, rightId) =>
    match reached.network.getTensor leftId, reached.network.getTensor rightId,
        reached.network.mergeTensors kind leftId rightId (generator reached.steps) with
    | some left, some right, some merged =>
      some ⟨merged, reached.steps + 1, reached.total + kind.getTensorContractionCost left right⟩
    | _, _, _ => none

/-- Performs a list of merges from a network. -/
def replay (network : TensorNetwork Tensor) (merges : List (UInt32 × UInt32)) :
    Option (Replayed Tensor) :=
  merges.foldl (replayStep kind generator) (some ⟨network, 0, 0⟩)

/-- Unordered pairs of non-output factors, each written with the smaller id first. -/
def NonOutputPairs (merges : List (UInt32 × UInt32)) : Prop :=
  ∀ merge ∈ merges, merge.1 ≠ 0 ∧ merge.2 ≠ 0 ∧ merge.1 < merge.2

/-- A complete merge schedule of a network with `n` input factors: `n - 1`
merges of non-output factors that can be performed in order. -/
def IsMergeSchedule (network : TensorNetwork Tensor) (merges : List (UInt32 × UInt32)) : Prop :=
  merges.length + 1 = network.factorIds.length ∧ NonOutputPairs merges ∧
    (replay kind generator network merges).isSome

/-- The generator's first `count` ids are fresh: non-zero, not a factor id of
the network, and distinct from each other. -/
def FreshIds (network : TensorNetwork Tensor) (count : Nat) : Prop :=
  ∀ p < count, generator p ≠ 0 ∧ generator p ∉ network.factorIds ∧ ∀ q < p, generator q ≠ generator p

instance (network : TensorNetwork Tensor) (count : Nat) :
    Decidable (FreshIds generator network count) :=
  inferInstanceAs (Decidable (∀ p < count, generator p ≠ 0 ∧ generator p ∉ network.factorIds ∧
    ∀ q < p, generator q ≠ generator p))

/-- What a replay from `network` keeps: each merge took one factor away, and
every id is the output's, an input factor's or a generator id already used. -/
def Reached (network : TensorNetwork Tensor) (reached : Replayed Tensor) : Prop :=
  reached.network.factorIds.length + reached.steps = network.factorIds.length ∧
    ∀ id ∈ reached.network.ids,
      id = 0 ∨ id ∈ network.factorIds ∨ ∃ q < reached.steps, generator q = id

variable {kind generator}

/-- A failed replay stays failed. -/
@[simp] theorem foldl_replayStep_none (merges : List (UInt32 × UInt32)) :
    merges.foldl (replayStep kind generator) none = none := by
  induction merges with
  | nil => rfl
  | cons _ _ inductionHypothesis => exact inductionHypothesis

/-- Replaying one more merge is one more replay step. -/
theorem replay_append (network : TensorNetwork Tensor) (merges : List (UInt32 × UInt32))
    (merge : UInt32 × UInt32) :
    replay kind generator network (merges ++ [merge]) =
      replayStep kind generator (replay kind generator network merges) merge :=
  List.foldl_append _ _ _ _

/-- Inversion of one merge of a replay. -/
theorem replayStep_eq_some {reached next : Replayed Tensor} {leftId rightId : UInt32}
    (step : replayStep kind generator (some reached) (leftId, rightId) = some next) :
    ∃ left right merged, reached.network.getTensor leftId = some left ∧
      reached.network.getTensor rightId = some right ∧
      reached.network.mergeTensors kind leftId rightId (generator reached.steps) = some merged ∧
      next = ⟨merged, reached.steps + 1, reached.total + kind.getTensorContractionCost left right⟩ := by
  simp only [replayStep] at step
  split at step
  · next left right merged foundLeft foundRight merge =>
    cases step
    exact ⟨left, right, merged, foundLeft, foundRight, merge, rfl⟩
  · cases step

/-- A replay counts its merges. -/
theorem steps_foldl : ∀ (merges : List (UInt32 × UInt32)) (reached result : Replayed Tensor),
    merges.foldl (replayStep kind generator) (some reached) = some result →
    result.steps = reached.steps + merges.length
  | [], _, _, replayed => by
    cases replayed
    rfl
  | (leftId, rightId) :: rest, reached, result, replayed => by
    rw [List.foldl_cons] at replayed
    cases stepped : replayStep kind generator (some reached) (leftId, rightId) with
    | none => simp [stepped] at replayed
    | some next =>
      rw [stepped] at replayed
      obtain ⟨_, _, _, _, _, _, rfl⟩ := replayStep_eq_some stepped
      simp only [steps_foldl rest _ result replayed, List.length_cons]
      omega

/-- A successful replay counts one step per merge. -/
theorem replay_steps {network : TensorNetwork Tensor} {merges : List (UInt32 × UInt32)}
    {result : Replayed Tensor} (replayed : replay kind generator network merges = some result) :
    result.steps = merges.length := by
  simpa using steps_foldl merges _ result replayed

/-- The input network is reached after no merge, at no cost. -/
theorem reached_start (network : TensorNetwork Tensor) :
    Reached generator network ⟨network, 0, 0⟩ := by
  refine ⟨rfl, fun id member => ?_⟩
  by_cases output : id = 0
  · exact .inl output
  · exact .inr (.inl (List.mem_filter.mpr ⟨member, decide_eq_true output⟩))

/-- A fresh generator id is not an id of any network a replay reaches. -/
theorem fresh_not_mem {network : TensorNetwork Tensor} {reached : Replayed Tensor} {count : Nat}
    (invariant : Reached generator network reached) (fresh : FreshIds generator network count)
    (unused : reached.steps < count) : generator reached.steps ∉ reached.network.ids := by
  intro member
  obtain ⟨nonzero, notFactor, distinct⟩ := fresh reached.steps unused
  rcases invariant.2 _ member with output | factor | ⟨q, earlier, same⟩
  · exact nonzero output
  · exact notFactor factor
  · exact distinct q earlier same

/-- Every merge of two present, distinct non-output factors into a fresh id succeeds. -/
theorem mergeTensors_fresh {network : TensorNetwork Tensor} {reached : Replayed Tensor}
    {count : Nat} (invariant : Reached generator network reached)
    (fresh : FreshIds generator network count) (unused : reached.steps < count)
    {left right : UInt32 × Tensor} (hasLeft : left ∈ reached.network.tensors)
    (hasRight : right ∈ reached.network.tensors) (distinct : left.1 ≠ right.1) :
    ∃ merged, reached.network.mergeTensors kind left.1 right.1 (generator reached.steps) =
      some merged := by
  obtain ⟨merged, merge, -⟩ := TensorNetwork.mergeTensors_eq_some kind reached.network
    (TensorNetwork.getTensor_of_mem hasLeft) (TensorNetwork.getTensor_of_mem hasRight) distinct
    (fun member => fresh_not_mem invariant fresh unused (by
      obtain ⟨entry, kept, same⟩ := List.mem_map.mp member
      exact List.mem_map.mpr ⟨entry, (List.mem_filter.mp kept).1, same⟩))
  exact ⟨merged, merge⟩

/-- A merge of two non-output factors keeps the invariant. -/
theorem Reached.step {network : TensorNetwork Tensor} {reached next : Replayed Tensor}
    {count : Nat} (invariant : Reached generator network reached)
    (fresh : FreshIds generator network count) (unused : reached.steps < count)
    {leftId rightId : UInt32} (leftFactor : leftId ≠ 0) (rightFactor : rightId ≠ 0)
    (step : replayStep kind generator (some reached) (leftId, rightId) = some next) :
    Reached generator network next := by
  obtain ⟨left, right, merged, -, -, merge, rfl⟩ := replayStep_eq_some step
  have taken := TensorNetwork.length_factorIds_merge merge leftFactor rightFactor
    (fresh reached.steps unused).1
  have counted := invariant.1
  refine ⟨by simp only; omega, fun id member => ?_⟩
  rcases (TensorNetwork.mem_ids_merge merge).mp member with rfl | ⟨old, -, -⟩
  · exact .inr (.inr ⟨reached.steps, Nat.lt_succ_self _, rfl⟩)
  · rcases invariant.2 id old with output | factor | ⟨q, earlier, same⟩
    · exact .inl output
    · exact .inr (.inl factor)
    · exact .inr (.inr ⟨q, Nat.lt_succ_of_lt earlier, same⟩)

/-- A replay of merges of non-output factors with enough fresh ids keeps the
invariant and counts its merges. -/
theorem reached_foldl {network : TensorNetwork Tensor} {count : Nat}
    (fresh : FreshIds generator network count) :
    ∀ (merges : List (UInt32 × UInt32)) (reached result : Replayed Tensor),
      NonOutputPairs merges → Reached generator network reached →
      reached.steps + merges.length ≤ count →
      merges.foldl (replayStep kind generator) (some reached) = some result →
      Reached generator network result ∧ result.steps = reached.steps + merges.length
  | [], reached, result, _, invariant, _, replayed => by
    cases replayed
    exact ⟨invariant, rfl⟩
  | merge :: rest, reached, result, pairs, invariant, enough, replayed => by
    rw [List.foldl_cons] at replayed
    cases stepped : replayStep kind generator (some reached) merge with
    | none => simp [stepped] at replayed
    | some next =>
      rw [stepped] at replayed
      have counted : next.steps = reached.steps + 1 := by
        obtain ⟨_, _, _, _, _, _, rfl⟩ := replayStep_eq_some stepped
        rfl
      obtain ⟨leftFactor, rightFactor, -⟩ := pairs merge (List.mem_cons_self _ _)
      have nextInvariant := invariant.step fresh (by simp at enough; omega) leftFactor rightFactor
        stepped
      obtain ⟨resultInvariant, resultSteps⟩ := reached_foldl fresh rest next result
        (fun m later => pairs m (List.mem_cons_of_mem _ later)) nextInvariant
        (by simp at enough; omega) replayed
      exact ⟨resultInvariant, by simp only [resultSteps, counted, List.length_cons]; omega⟩

/-- Replaying merges of non-output factors into fresh ids reaches a network, one step per merge. -/
theorem reached_replay {network : TensorNetwork Tensor} {count : Nat}
    (fresh : FreshIds generator network count) {merges : List (UInt32 × UInt32)}
    {result : Replayed Tensor} (pairs : NonOutputPairs merges) (enough : merges.length ≤ count)
    (replayed : replay kind generator network merges = some result) :
    Reached generator network result ∧ result.steps = merges.length := by
  have := reached_foldl fresh merges _ result pairs (reached_start network)
    (by simpa using enough) replayed
  simpa using this

end Replay

end Exatn.Numerics
