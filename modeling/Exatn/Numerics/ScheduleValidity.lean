import Exatn.Numerics.ContractionSeqOptimizerHeuro

/-!
# What the planner returns

Every path the planner builds is sound: its network and its cost are the
replay of its sequence's merges, all of non-output factors (`PathSound`).
Children of a sound path are sound, so every path of every beam is, and the
one the last pass keeps is a complete schedule whose replayed cost is the
returned value.

The loop over passes is proved once, for any invariant of the beams that the
intermediate passes keep and the last pass turns into a result
(`passLoop_of_invariant`); the soundness result instantiates it with sound,
non-empty beams. It needs at least one walker and two input factors: with none,
the wrapped pass count runs the loop `2^32 - 1` times over empty beams, and its
last pass reads the top of an empty queue.
-/

namespace Exatn.Numerics

/-- A path of pass `p` is sound: its network and cost are the replay of its
sequence's `p` merges, all of non-output factors. -/
def PathSound {Tensor : Type} (kind : TensorKind Tensor) (generator : Nat → UInt32)
    (network : TensorNetwork Tensor) (p : Nat) (path : ContrPath Tensor) : Prop :=
  replay kind generator network (path.sequence.map ContrTriple.pair) =
      some ⟨path.network, p, path.cost⟩ ∧
    NonOutputPairs (path.sequence.map ContrTriple.pair)

section Soundness

variable {Tensor : Type} {kind : TensorKind Tensor} {rule : TopRule}
  {generator : Nat → UInt32} {network : TensorNetwork Tensor} {count p : Nat}

/-- The planner's starting path, the input network with no merge, is sound. -/
theorem pathSound_start : PathSound kind generator network 0 ⟨network, [], 0⟩ :=
  ⟨rfl, fun _ member => by cases member⟩

/-- A sound path of pass `p` has reached its network in `p` merges. -/
theorem PathSound.reached {path : ContrPath Tensor} (sound : PathSound kind generator network p path)
    (fresh : FreshIds generator network count) (enough : p ≤ count) :
    Reached generator network ⟨path.network, p, path.cost⟩ ∧ path.sequence.length = p := by
  have counted : path.sequence.length = p := by simpa using (replay_steps sound.1).symm
  exact ⟨(reached_replay fresh sound.2 (by rw [List.length_map]; omega) sound.1).1, counted⟩

/-- Contracting a pair of factors of a sound path into a fresh id succeeds and
gives a sound path of the next pass. -/
theorem contractPair_sound {path : ContrPath Tensor} (sound : PathSound kind generator network p path)
    (fresh : FreshIds generator network count) (unused : p < count) (lastPass : Bool)
    {pair : (UInt32 × Tensor) × (UInt32 × Tensor)}
    (member : pair ∈ factorPairs path.network.tensors) :
    ∃ child, contractPair kind lastPass (generator p) path pair.1 pair.2 = some child ∧
      PathSound kind generator network (p + 1) child := by
  obtain ⟨left, right⟩ := pair
  obtain ⟨hasLeft, hasRight, leftFactor, rightFactor, before⟩ :=
    (mem_factorPairs path.network.sorted).mp member
  obtain ⟨invariant, -⟩ := sound.reached fresh (Nat.le_of_lt unused)
  obtain ⟨merged, merge⟩ : ∃ merged,
      path.network.mergeTensors kind left.1 right.1 (generator p) = some merged :=
    mergeTensors_fresh invariant fresh unused hasLeft hasRight
      (fun same => Nat.lt_irrefl _ (same ▸ before))
  refine ⟨_, by rw [contractPair, merge, Option.map_some'], ?_, ?_⟩
  · simp only [List.map_append, List.map_singleton, ContrTriple.pair, replay_append]
    simp only [sound.1, replayStep, TensorNetwork.getTensor_of_mem hasLeft,
      TensorNetwork.getTensor_of_mem hasRight, merge, Nat.add_comm path.cost]
  · intro m inMerges
    simp only [List.map_append, List.map_singleton, List.mem_append, List.mem_singleton]
      at inMerges
    rcases inMerges with old | rfl
    · exact sound.2 m old
    · exact ⟨leftFactor, rightFactor, before⟩

/-- Every merge of a sound path's expansion succeeds. -/
theorem mergesSucceed_of_sound {path : ContrPath Tensor}
    (sound : PathSound kind generator network p path) (fresh : FreshIds generator network count)
    (unused : p < count) : mergesSucceed kind (generator p) path = true := by
  refine List.all_eq_true.mpr fun pair member => ?_
  obtain ⟨child, contracted, -⟩ := contractPair_sound sound fresh unused false member
  obtain ⟨merged, merge, -⟩ := Option.map_eq_some'.mp contracted
  simp [merge]

/-- Every child of a sound path is a sound path of the next pass. -/
theorem children_sound {path : ContrPath Tensor} (sound : PathSound kind generator network p path)
    (fresh : FreshIds generator network count) (unused : p < count) (lastPass : Bool)
    {child : ContrPath Tensor} (member : child ∈ children kind lastPass (generator p) path) :
    PathSound kind generator network (p + 1) child := by
  obtain ⟨pair, listed, contracted⟩ := List.mem_filterMap.mp member
  obtain ⟨other, same, otherSound⟩ := contractPair_sound sound fresh unused lastPass listed
  rw [contracted] at same
  exact Option.some.inj same ▸ otherSound

/-- A filter-map that keeps every entry keeps the length. -/
theorem length_filterMap_of_isSome {α β : Type} {f : α → Option β} :
    ∀ {entries : List α}, (∀ x ∈ entries, (f x).isSome) →
      (entries.filterMap f).length = entries.length
  | [], _ => rfl
  | x :: rest, all => by
    obtain ⟨y, found⟩ := Option.isSome_iff_exists.mp (all x (List.mem_cons_self _ _))
    rw [List.filterMap_cons, found, List.length_cons, List.length_cons,
      length_filterMap_of_isSome (fun z member => all z (List.mem_cons_of_mem _ member))]

/-- A sound path of pass `p` has `(n - p) choose 2` children. -/
theorem length_children {path : ContrPath Tensor} (sound : PathSound kind generator network p path)
    (fresh : FreshIds generator network count) (unused : p < count) (lastPass : Bool) :
    (children kind lastPass (generator p) path).length =
      (network.factorIds.length - p).choose 2 := by
  obtain ⟨invariant, -⟩ := sound.reached fresh (Nat.le_of_lt unused)
  have factors := invariant.1
  simp only at factors
  rw [children, length_filterMap_of_isSome fun pair member => by
      obtain ⟨child, contracted, -⟩ := contractPair_sound sound fresh unused lastPass member
      simp [contracted],
    length_factorPairs, ← TensorNetwork.length_factorIds]
  congr 1
  omega

/-- One pass over sound input paths pushes only sound children, and keeps as
many as the bound allows. -/
theorem collectPaths_sound {numWalkers : UInt32} {queue : PriorityQueue (ContrPath Tensor)}
    {inputPaths : List (ContrPath Tensor)} (empty : queue.entries = [])
    (sound : ∀ path ∈ inputPaths, PathSound kind generator network p path)
    (fresh : FreshIds generator network count) (unused : p < count) (lastPass : Bool) :
    ∃ priq, collectPaths kind rule numWalkers lastPass (generator p) queue inputPaths = .ok priq ∧
      (∀ path ∈ priq.entries, PathSound kind generator network (p + 1) path) ∧
      priq.entries.length = min numWalkers.toNat
        (inputPaths.flatMap (children kind lastPass (generator p))).length := by
  have succeed : inputPaths.all (mergesSucceed kind (generator p)) = true :=
    List.all_eq_true.mpr fun path member => mergesSucceed_of_sound (sound path member) fresh unused
  refine ⟨_, by rw [collectPaths, if_pos succeed], fun path member => ?_, ?_⟩
  · rcases mem_pushAll rule ContrPath.cost member with initial | pushed
    · rw [empty] at initial
      cases initial
    · obtain ⟨parent, listed, child⟩ := List.mem_flatMap.mp pushed
      exact children_sound (sound parent listed) fresh unused lastPass child
  · rw [length_pushAll rule ContrPath.cost _ (by rw [empty]; exact Nat.zero_le _), empty,
      List.length_nil, Nat.zero_add]

/-- A non-empty beam of sound paths with two or more factors left has a child. -/
theorem flatMap_children_ne_nil {inputPaths : List (ContrPath Tensor)}
    (sound : ∀ path ∈ inputPaths, PathSound kind generator network p path)
    (fresh : FreshIds generator network count) (unused : p < count)
    (nonempty : inputPaths ≠ []) (twoLeft : p + 2 ≤ network.factorIds.length) (lastPass : Bool) :
    0 < (inputPaths.flatMap (children kind lastPass (generator p))).length := by
  obtain ⟨path, rest, rfl⟩ := List.exists_cons_of_ne_nil nonempty
  have many := length_children (sound path (List.mem_cons_self _ _)) fresh unused lastPass
  have positive : 0 < (network.factorIds.length - p).choose 2 := Nat.choose_pos (by omega)
  rw [List.flatMap_cons, List.length_append]
  omega

end Soundness

section Loop

variable {Tensor : Type} (kind : TensorKind Tensor) (rule : TopRule) (numWalkers : UInt32)
  (generator : Nat → UInt32) (numContractions : Nat)

/-- The loop over passes, proved once: an invariant of the beams that every
intermediate pass keeps, and that the last pass turns into a returned path,
makes the loop return that path's sequence and cost. Each pass starts on an
empty queue, whatever its history, since the pass before drained it. -/
theorem passLoop_of_invariant (Beam : Nat → List (ContrPath Tensor) → Prop)
    (Final : ContrPath Tensor → Prop)
    (intermediate : ∀ p beam (queue : PriorityQueue (ContrPath Tensor)),
      p + 1 < numContractions → queue.entries = [] → Beam p beam →
      ∃ priq, collectPaths kind rule numWalkers false (generator p) queue beam = .ok priq ∧
        Beam (p + 1) (drain rule ContrPath.cost priq.entries.length priq).1)
    (last : ∀ beam (queue : PriorityQueue (ContrPath Tensor)), queue.entries = [] →
      Beam (numContractions - 1) beam →
      ∃ priq best, collectPaths kind rule numWalkers true (generator (numContractions - 1)) queue
          beam = .ok priq ∧
        top rule ContrPath.cost (popToOne rule ContrPath.cost priq.entries.length priq) = some best ∧
        Final best) :
    ∀ remaining pass queue beam result, pass + remaining = numContractions → 0 < remaining →
      queue.entries = [] → Beam pass beam →
      ∃ best, passLoop kind rule numWalkers generator numContractions remaining pass queue beam
        result = .ok (best.sequence, best.cost) ∧ Final best
  | 0, _, _, _, _, _, empty, _, _ => absurd empty (Nat.lt_irrefl 0)
  | remaining + 1, pass, queue, beam, result, counted, _, emptyQueue, invariant => by
    by_cases lastPass : pass = numContractions - 1
    · have finished : remaining = 0 := by omega
      subst finished
      rw [lastPass] at invariant
      obtain ⟨priq, best, collected, found, final⟩ := last beam queue emptyQueue invariant
      refine ⟨best, ?_, final⟩
      simp only [passLoop, lastPass, decide_True, collected, found, if_true]
    · obtain ⟨priq, collected, next⟩ := intermediate pass beam queue (by omega) emptyQueue invariant
      obtain ⟨best, returned, final⟩ := passLoop_of_invariant Beam Final intermediate last
        remaining (pass + 1) _ _ result (by omega) (by omega)
        (drain_perm rule ContrPath.cost priq.entries.length priq rfl).2 next
      refine ⟨best, ?_, final⟩
      simp only [passLoop, lastPass, decide_False, collected, if_false, returned]

/-- A loop that starts on an empty beam and an empty queue reads the top of an
empty queue in its last pass. -/
theorem passLoop_nil : ∀ remaining pass (queue : PriorityQueue (ContrPath Tensor))
    (result : List ContrTriple × Nat), pass + remaining = numContractions → 0 < remaining →
    queue.entries = [] →
    passLoop kind rule numWalkers generator numContractions remaining pass queue [] result =
      .error .topOfEmptyQueue
  | 0, _, _, _, _, empty, _ => absurd empty (Nat.lt_irrefl 0)
  | remaining + 1, pass, queue, result, counted, _, emptyQueue => by
    have collected : ∀ lastPass intermediateId, collectPaths kind rule numWalkers lastPass
        intermediateId queue ([] : List (ContrPath Tensor)) = .ok queue := fun _ _ => rfl
    by_cases lastPass : pass = numContractions - 1
    · simp only [passLoop, lastPass, collected, if_true,
        top_popToOne_of_entries_nil rule ContrPath.cost emptyQueue]
    · simp only [passLoop, lastPass, collected, if_false,
        drain_of_entries_nil rule ContrPath.cost emptyQueue]
      exact passLoop_nil remaining (pass + 1) queue result (by omega) (by omega) emptyQueue

end Loop

section Returns

variable {Tensor : Type} {kind : TensorKind Tensor} {rule : TopRule} {numWalkers : UInt32}
  {generator : Nat → UInt32} {network : TensorNetwork Tensor}

/-- With two or more input factors the pass count is `n - 1`, without wrap. -/
theorem numContractions_toNat (factors : 2 ≤ network.factorIds.length) :
    network.getNumTensors - 1 ≠ 0 ∧
      (network.getNumTensors - 1).toNat = network.factorIds.length - 1 := by
  have exact := TensorNetwork.toNat_getNumTensors network
  have one : (1 : UInt32) ≤ network.getNumTensors := by
    change (1 : UInt32).toNat ≤ network.getNumTensors.toNat
    rw [exact]
    exact Nat.le_trans (by decide) factors
  have difference := UInt32.toNat_sub_of_le network.getNumTensors 1 one
  rw [exact, show (1 : UInt32).toNat = 1 from rfl] at difference
  refine ⟨fun zero => ?_, difference⟩
  have := congrArg UInt32.toNat zero
  rw [difference, UInt32.toNat_zero] at this
  omega

/-- With at least one walker, two or more input factors and fresh generator
ids, the planner returns a sound path of pass `n - 1`. -/
theorem planner_returns_sound (kind : TensorKind Tensor) (rule : TopRule)
    (walkers : 1 ≤ numWalkers.toNat)
    (factors : 2 ≤ network.factorIds.length)
    (fresh : FreshIds generator network (network.factorIds.length - 1)) :
    ∃ best, determineContractionSequence kind rule numWalkers network generator =
        .ok (best.sequence, best.cost) ∧
      PathSound kind generator network (network.factorIds.length - 1) best := by
  obtain ⟨nonzero, passes⟩ := numContractions_toNat factors
  simp only [determineContractionSequence, if_neg nonzero, passes]
  refine passLoop_of_invariant kind rule numWalkers generator _
    (fun p beam => beam ≠ [] ∧ ∀ path ∈ beam, PathSound kind generator network p path)
    (PathSound kind generator network (network.factorIds.length - 1))
    (fun p beam queue before emptyQueue ⟨nonempty, sound⟩ => ?_)
    (fun beam queue emptyQueue ⟨nonempty, sound⟩ => ?_)
    _ 0 _ _ _ (by omega) (by omega) rfl ⟨List.cons_ne_nil _ _, fun path member => by
      rw [List.mem_singleton.mp member]
      exact pathSound_start⟩
  · obtain ⟨priq, collected, soundQueue, length⟩ :=
      collectPaths_sound emptyQueue sound fresh (by omega) false
    have some := flatMap_children_ne_nil sound fresh (by omega) nonempty (by omega) false
    have drained := (drain_perm rule ContrPath.cost priq.entries.length priq rfl).1
    refine ⟨priq, collected, fun empty => ?_, fun path member => soundQueue path
      (drained.subset member)⟩
    have := drained.length_eq
    rw [empty, List.length_nil] at this
    omega
  · obtain ⟨priq, collected, soundQueue, length⟩ :=
      collectPaths_sound emptyQueue sound fresh (by omega) true
    have some := flatMap_children_ne_nil sound fresh (by omega) nonempty (by omega) true
    have nonempty : priq.entries ≠ [] :=
      List.ne_nil_of_length_pos (length ▸ Nat.lt_min.mpr ⟨walkers, some⟩)
    obtain ⟨best, single, member, -⟩ := popToOne_least rule ContrPath.cost priq.entries.length priq
      nonempty (Nat.le_succ _)
    refine ⟨priq, best, collected, top_of_singleton rule _ single, ?_⟩
    have := soundQueue best member
    rwa [Nat.sub_add_cancel (by omega : 1 ≤ network.factorIds.length - 1)] at this

/-- With at least one walker, two or more input factors and fresh generator
ids, the planner returns `n - 1` triples, and the value it returns is their
summed cost: replaying their merges from the input network, merge `p` into the
generator's `p`-th id, costs exactly that value. -/
theorem returned_cost_is_replayed_cost (kind : TensorKind Tensor) (rule : TopRule)
    (numWalkers : UInt32) (network : TensorNetwork Tensor) (generator : Nat → UInt32)
    (walkers : 1 ≤ numWalkers.toNat) (factors : 2 ≤ network.factorIds.length)
    (fresh : FreshIds generator network (network.factorIds.length - 1)) :
    ∃ sequence flops, determineContractionSequence kind rule numWalkers network generator =
        .ok (sequence, flops) ∧
      sequence.length + 1 = network.factorIds.length ∧
      (replay kind generator network (sequence.map ContrTriple.pair)).map Replayed.total =
        some flops := by
  obtain ⟨best, returned, sound⟩ := planner_returns_sound kind rule walkers factors fresh
  have counted := (sound.reached fresh (Nat.le_refl _)).2
  exact ⟨best.sequence, best.cost, returned, by omega, by rw [sound.1]; rfl⟩

/-! Dense tensors, the concrete tensor kind on which the planner is run below.
A dense tensor is the list of its legs, each a bond label and an extent; a bond
shared by two tensors is contracted when they are. Contracting two tensors
costs the product of the extents of all their bonds, a shared bond counted
once, which is the flop count of a dense pairwise contraction, and leaves the
bonds they do not share. -/

/-- A dense tensor: its legs, each a bond label and an extent. -/
abbrev DenseTensor := List (Nat × Nat)

/-- The product of the extents of a list of legs. -/
def extentProduct (legs : DenseTensor) : Nat := legs.foldr (fun leg product => leg.2 * product) 1

/-- Modelled from the spec: the cost routine and the fused tensor of dense
tensors. The cost counts every bond of the two tensors once; fusing keeps the
bonds that only one of them has. -/
def denseKind : TensorKind DenseTensor where
  getTensorContractionCost left right := extentProduct (left ++ right.filter (· ∉ left))
  fuse left right := left.filter (· ∉ right) ++ right.filter (· ∉ left)

/-- A chain of three dense tensors `T1 - T2 - T3` with open legs at both ends. -/
def denseChain : TensorNetwork DenseTensor :=
  ⟨[(0, [(0, 2), (3, 2)]), (1, [(0, 2), (1, 3)]), (2, [(1, 3), (2, 4)]), (3, [(2, 4), (3, 2)])],
    by decide⟩

/-- Intermediate ids `100, 101, ...`. -/
def countingFrom100 (p : Nat) : UInt32 := (100 + p).toUInt32

/-- On the dense chain with one walker, the returned cost is the replayed cost of the returned triples. -/
theorem denseChain_returned_cost :
    1 ≤ (1 : UInt32).toNat ∧ 2 ≤ denseChain.factorIds.length ∧
      FreshIds countingFrom100 denseChain (denseChain.factorIds.length - 1) ∧
      ∃ sequence flops, determineContractionSequence denseKind TopRule.firstGreatest 1 denseChain
          countingFrom100 = .ok (sequence, flops) ∧
        sequence.length + 1 = denseChain.factorIds.length ∧
        (replay denseKind countingFrom100 denseChain (sequence.map ContrTriple.pair)).map
          Replayed.total = some flops :=
  ⟨by decide, by decide, by decide,
    returned_cost_is_replayed_cost denseKind TopRule.firstGreatest 1 denseChain countingFrom100
      (by decide) (by decide) (by decide)⟩

/-- On a network with no input factor, `getNumTensors() - 1` wraps to
`2^32 - 1`, the first pass finds no pair, every later pass starts from an empty
beam, and the last one reads the top of the empty queue: for every cost
routine, tie rule, beam width and generator. -/
theorem empty_network_reads_empty_top (kind : TensorKind Tensor) (rule : TopRule)
    (numWalkers : UInt32) (network : TensorNetwork Tensor) (generator : Nat → UInt32)
    (noFactors : network.factorIds = []) :
    determineContractionSequence kind rule numWalkers network generator =
      .error .topOfEmptyQueue := by
  have none : network.getNumTensors = 0 := by
    simp only [TensorNetwork.getNumTensors, noFactors, List.length_nil]
    rfl
  have noPairs : factorPairs network.tensors = [] :=
    factorPairs_eq_nil fun _ member => TensorNetwork.output_only noFactors member
  have collected : ∀ lastPass, collectPaths kind rule numWalkers lastPass (generator 0) ⟨[], []⟩
      [⟨network, [], 0⟩] = .ok ⟨[], []⟩ := by
    simp [collectPaths, mergesSucceed, children, noPairs]
  simp only [determineContractionSequence, none]
  rw [if_neg (by decide)]
  change passLoop kind rule numWalkers generator 4294967295 (4294967294 + 1) 0 _ _ _ = _
  rw [passLoop.eq_2]
  simp only [collected]
  rw [if_neg (by decide)]
  exact passLoop_nil kind rule numWalkers generator _ 4294967294 1 _ _ (by decide) (by decide) rfl

/-- A network that holds only its output tensor. -/
def outputOnly : TensorNetwork DenseTensor := ⟨[(0, [(0, 2)])], by decide⟩

/-- A network with only its output tensor makes the planner read the top of an empty queue. -/
theorem outputOnly_reads_empty_top :
    outputOnly.factorIds = [] ∧
      determineContractionSequence denseKind TopRule.firstGreatest 1 outputOnly countingFrom100 =
        .error .topOfEmptyQueue :=
  ⟨by decide, empty_network_reads_empty_top denseKind TopRule.firstGreatest 1 outputOnly
    countingFrom100 (by decide)⟩

/-- With no walker, every pass from an empty queue keeps no path. -/
theorem collectPaths_zero {lastPass : Bool} {intermediateId : UInt32}
    {queue priq : PriorityQueue (ContrPath Tensor)} {inputPaths : List (ContrPath Tensor)}
    (empty : queue.entries = [])
    (collected : collectPaths kind rule 0 lastPass intermediateId queue inputPaths = .ok priq) :
    priq.entries = [] := by
  unfold collectPaths at collected
  split at collected
  · cases collected
    exact List.eq_nil_of_length_eq_zero
      ((length_pushAll rule ContrPath.cost _ (by rw [empty]; exact Nat.zero_le _)).trans
        (Nat.zero_min _))
  · cases collected

/-- With no walker the bounded queue keeps nothing, so whenever there is a
contraction to plan the planner stops without a result: the first pass keeps no
path, and the last pass reads the top of an empty queue, unless a merge of the
first pass failed. For every network, cost routine, tie rule and generator:
`resetNumWalkers(0)` is accepted and leaves a planner that never returns. -/
theorem zero_walkers_never_return (kind : TensorKind Tensor) (rule : TopRule)
    (network : TensorNetwork Tensor) (generator : Nat → UInt32)
    (contractions : network.getNumTensors - 1 ≠ 0) :
    ∃ error, determineContractionSequence kind rule 0 network generator = .error error := by
  obtain ⟨later, passes⟩ := Nat.exists_eq_succ_of_ne_zero
    fun zero => contractions (UInt32.toNat.inj (zero.trans UInt32.toNat_zero.symm))
  dsimp only [determineContractionSequence]
  rw [if_neg contractions, passes, passLoop]
  split
  · exact ⟨_, rfl⟩
  · next priq collected =>
    have empty := collectPaths_zero rfl collected
    split
    · simp only [top_popToOne_of_entries_nil rule ContrPath.cost empty]
      exact ⟨_, rfl⟩
    · simp only [drain_of_entries_nil rule ContrPath.cost empty]
      exact ⟨_, passLoop_nil kind rule 0 generator _ later 1 _ _ (by omega) (by omega) empty⟩

/-- The dense chain with no walker stops without a result. -/
theorem denseChain_zero_walkers :
    denseChain.getNumTensors - 1 ≠ 0 ∧
      ∃ error, determineContractionSequence denseKind TopRule.firstGreatest 0 denseChain
        countingFrom100 = .error error :=
  ⟨by decide, zero_walkers_never_return denseKind TopRule.firstGreatest denseChain countingFrom100
    (by decide)⟩

end Returns

section ResultIds

variable {Tensor : Type} (kind : TensorKind Tensor) (rule : TopRule) (numWalkers : UInt32)
  (generator : Nat → UInt32) (numContractions : Nat)

/-- The result ids a sequence records: the generator's `p`-th id for every
triple `p` but the last, and the output id 0 for the last one. -/
def RecordsResultIds (sequence : List ContrTriple) : Prop :=
  sequence.map ContrTriple.resultId =
    (List.range sequence.length).map fun p => if p + 1 = sequence.length then 0 else generator p

/-- A child extends its parent's sequence by one triple, into the pass's
intermediate id, or into the output id 0 on the last pass. -/
theorem mem_collectPaths {lastPass : Bool} {intermediateId : UInt32}
    {queue priq : PriorityQueue (ContrPath Tensor)} {inputPaths : List (ContrPath Tensor)}
    (empty : queue.entries = [])
    (collected : collectPaths kind rule numWalkers lastPass intermediateId queue inputPaths =
      .ok priq)
    {child : ContrPath Tensor} (member : child ∈ priq.entries) :
    ∃ parent ∈ inputPaths, ∃ leftId rightId, child.sequence =
      parent.sequence ++ [⟨if lastPass then 0 else intermediateId, leftId, rightId⟩] := by
  unfold collectPaths at collected
  split at collected
  · cases collected
    rcases mem_pushAll rule ContrPath.cost member with initial | pushed
    · rw [empty] at initial
      cases initial
    · obtain ⟨parent, listed, grown⟩ := List.mem_flatMap.mp pushed
      obtain ⟨pair, -, contracted⟩ := List.mem_filterMap.mp grown
      obtain ⟨merged, -, rfl⟩ := Option.map_eq_some'.mp contracted
      exact ⟨parent, listed, _, _, rfl⟩
  · cases collected

variable {generator}

/-- A sequence whose triples write the generator's ids, ended by a triple into the output, records its result ids. -/
theorem recordsResultIds_append_output {sequence : List ContrTriple}
    (earlier : sequence.map ContrTriple.resultId = (List.range sequence.length).map generator)
    (leftId rightId : UInt32) : RecordsResultIds generator (sequence ++ [⟨0, leftId, rightId⟩]) := by
  rw [RecordsResultIds, List.length_append, List.length_singleton, List.range_succ, List.map_append,
    List.map_append, earlier]
  refine congrArg₂ _ (List.map_congr_left fun p member => ?_) (by simp)
  rw [if_neg (by have := List.mem_range.mp member; omega)]

/-- Every pass records the generator's id of the pass in each child it keeps,
and the last pass the output id; so whatever the loop returns records its
result ids. -/
theorem passLoop_recordsResultIds : ∀ remaining pass (queue : PriorityQueue (ContrPath Tensor))
    (beam : List (ContrPath Tensor)) result out, queue.entries = [] →
    (∀ path ∈ beam, path.sequence.map ContrTriple.resultId = (List.range pass).map generator) →
    RecordsResultIds generator result.1 →
    passLoop kind rule numWalkers generator numContractions remaining pass queue beam result =
      .ok out →
    RecordsResultIds generator out.1
  | 0, _, _, _, _, _, _, _, recorded, returned => by
    cases returned
    exact recorded
  | remaining + 1, pass, queue, beam, result, out, emptyQueue, recordedBeam, recorded,
      returned => by
    rw [passLoop] at returned
    split at returned
    · cases returned
    · next priq collected =>
      have counted : ∀ path ∈ beam, path.sequence.length = pass := fun path member => by
        simpa using congrArg List.length (recordedBeam path member)
      split at returned
      · next lastPass =>
        dsimp only at returned
        split at returned
        · next best found =>
          refine passLoop_recordsResultIds remaining (pass + 1) _ [] _ out
            (pop_popToOne rule _ _ (Nat.le_succ _)) (fun _ member => nomatch member) ?_ returned
          obtain ⟨parent, listed, leftId, rightId, grown⟩ :=
            mem_collectPaths kind rule numWalkers emptyQueue collected
              (mem_of_mem_popToOne rule _ (mem_of_top rule _ found))
          rw [decide_eq_true lastPass, if_pos rfl] at grown
          rw [grown]
          exact recordsResultIds_append_output
            ((counted parent listed).symm ▸ recordedBeam parent listed) leftId rightId
        · cases returned
      · next notLast =>
        refine passLoop_recordsResultIds remaining (pass + 1) _ _ result out
          (drain_perm rule _ _ _ rfl).2 (fun path member => ?_) recorded returned
        obtain ⟨parent, listed, leftId, rightId, grown⟩ :=
          mem_collectPaths kind rule numWalkers emptyQueue collected (mem_of_mem_drain rule _ member)
        rw [decide_eq_false notLast] at grown
        simp [grown, recordedBeam parent listed, List.range_succ]

/-- Whenever the planner returns, for every network, cost routine, tie rule,
beam width and generator, triple `p` of the returned sequence writes the
intermediate id the generator returned at its `p`-th call, and the last triple
writes the output tensor 0. -/
theorem returned_triples_record_result_ids (numWalkers : UInt32) (network : TensorNetwork Tensor)
    (generator : Nat → UInt32) (sequence : List ContrTriple) (flops : Nat)
    (returned : determineContractionSequence kind rule numWalkers network generator =
      .ok (sequence, flops)) :
    sequence.map ContrTriple.resultId = (List.range sequence.length).map fun p =>
      if p + 1 = sequence.length then 0 else generator p := by
  dsimp only [determineContractionSequence] at returned
  split at returned
  · cases returned
    rfl
  · exact passLoop_recordsResultIds kind rule numWalkers _ _ 0 _ _ ([], 0) (sequence, flops) rfl
      (fun path member => by rw [List.mem_singleton.mp member]; rfl) rfl returned

/-- The dense chain's two triples write id 100, then the output. -/
theorem denseChain_result_ids :
    determineContractionSequence denseKind TopRule.firstGreatest 1 denseChain countingFrom100 =
        .ok ([⟨100, 2, 3⟩, ⟨0, 1, 100⟩], 36) ∧
      [(⟨100, 2, 3⟩ : ContrTriple), ⟨0, 1, 100⟩].map ContrTriple.resultId =
        (List.range 2).map fun p => if p + 1 = 2 then 0 else countingFrom100 p :=
  ⟨rfl, returned_triples_record_result_ids denseKind TopRule.firstGreatest 1 denseChain
    countingFrom100 _ 36 rfl⟩

end ResultIds

end Exatn.Numerics
