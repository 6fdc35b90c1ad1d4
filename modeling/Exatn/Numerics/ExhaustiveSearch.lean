import Exatn.Numerics.ScheduleValidity

/-!
# The beam search against exhaustive search

Without its bound, the planner's passes enumerate every merge schedule:
`allPaths p` is the list of paths of all schedules' first `p` merges, each path
once, and its last level covers every complete merge schedule
(`mem_allPaths_of_replay`). There are `∏ k = 2..n, k (k - 1) / 2` complete
schedules, and no level has more paths than that, so a beam at least that wide
never drops a path: every beam is a permutation of the level, and the last pass
keeps a path of least cost among all complete schedules.

With any width the returned cost is the cost of a complete schedule, so it is
at least the least one; with a width of at least the schedule count it is the
least one. A wider beam is not always better: on a network of four dense
tensors the planner with two walkers returns a costlier schedule than with one.
-/

namespace Exatn.Numerics

/-- The number of complete merge schedules of `n` factors:
`∏ k = 2..n, k (k - 1) / 2`. -/
def completeScheduleCount : Nat → Nat
  | 0 => 1
  | 1 => 1
  | k + 2 => (k + 2) * (k + 1) / 2 * completeScheduleCount (k + 1)

/-- The paths of all schedules' first `p` merges: the planner's passes with no
bound on the queue. -/
def allPaths {Tensor : Type} (kind : TensorKind Tensor) (generator : Nat → UInt32)
    (numContractions : Nat) (network : TensorNetwork Tensor) : Nat → List (ContrPath Tensor)
  | 0 => [⟨network, [], 0⟩]
  | p + 1 => (allPaths kind generator numContractions network p).flatMap
      (children kind (decide (p = numContractions - 1)) (generator p))

/-- Every factor count has at least one complete schedule. -/
theorem completeScheduleCount_pos : ∀ n, 0 < completeScheduleCount n
  | 0 => Nat.one_pos
  | 1 => Nat.one_pos
  | k + 2 => Nat.mul_pos
      (Nat.div_pos (Nat.le_trans (by decide : 2 ≤ 2 * 1)
        (Nat.mul_le_mul (Nat.le_add_left 2 k) (Nat.le_add_left 1 k))) (by decide))
      (completeScheduleCount_pos (k + 1))

/-- One more factor multiplies the schedule count by its number of pairs. -/
theorem completeScheduleCount_succ {m : Nat} (twoOrMore : 2 ≤ m) :
    completeScheduleCount m = m.choose 2 * completeScheduleCount (m - 1) := by
  obtain ⟨k, rfl⟩ : ∃ k, m = k + 2 := ⟨m - 2, by omega⟩
  rw [completeScheduleCount, Nat.choose_two_right]
  rfl

/-- Expanding every entry into lists of one size multiplies the length by that size. -/
theorem length_flatMap_const {α β : Type} {f : α → List β} {size : Nat} :
    ∀ {entries : List α}, (∀ x ∈ entries, (f x).length = size) →
      (entries.flatMap f).length = entries.length * size
  | [], _ => by simp
  | x :: rest, same => by
    rw [List.flatMap_cons, List.length_append, same x (List.mem_cons_self _ _),
      length_flatMap_const (fun y member => same y (List.mem_cons_of_mem _ member)),
      List.length_cons, Nat.succ_mul, Nat.add_comm]

section Exhaustive

variable {Tensor : Type} {kind : TensorKind Tensor} {generator : Nat → UInt32}
  {network : TensorNetwork Tensor} {numContractions : Nat}

/-- Every path of the first `n - 1` levels is sound. -/
theorem allPaths_sound (fresh : FreshIds generator network (network.factorIds.length - 1)) :
    ∀ p, p ≤ network.factorIds.length - 1 →
      ∀ path ∈ allPaths kind generator numContractions network p,
        PathSound kind generator network p path
  | 0, _, path, member => by
    rw [List.mem_singleton.mp member]
    exact pathSound_start
  | p + 1, within, path, member => by
    obtain ⟨parent, listed, child⟩ := List.mem_flatMap.mp member
    exact children_sound (allPaths_sound fresh p (by omega) parent listed) fresh (by omega) _ child

/-- Each level has as many paths as the schedules of its merges: the level
count times the count of the rest is the complete count. -/
theorem length_allPaths_mul (fresh : FreshIds generator network (network.factorIds.length - 1)) :
    ∀ p, p ≤ network.factorIds.length - 1 →
      (allPaths kind generator numContractions network p).length *
          completeScheduleCount (network.factorIds.length - p) =
        completeScheduleCount network.factorIds.length
  | 0, _ => by simp [allPaths]
  | p + 1, within => by
    have level : ((allPaths kind generator numContractions network p).flatMap
        (children kind (decide (p = numContractions - 1)) (generator p))).length =
          (allPaths kind generator numContractions network p).length *
            (network.factorIds.length - p).choose 2 :=
      length_flatMap_const fun path member =>
        length_children (allPaths_sound fresh p (by omega) path member) fresh (by omega) _
    rw [allPaths, level, ← length_allPaths_mul fresh p (by omega),
      completeScheduleCount_succ (by omega : 2 ≤ network.factorIds.length - p),
      show network.factorIds.length - p - 1 = network.factorIds.length - (p + 1) by omega,
      Nat.mul_assoc]

/-- No level of the exhaustive enumeration has more paths than there are complete schedules. -/
theorem length_allPaths_le (fresh : FreshIds generator network (network.factorIds.length - 1))
    {p : Nat} (within : p ≤ network.factorIds.length - 1) :
    (allPaths kind generator numContractions network p).length ≤
      completeScheduleCount network.factorIds.length := by
  rw [← length_allPaths_mul fresh p within]
  exact Nat.le_mul_of_pos_right _ (completeScheduleCount_pos _)

/-- Every replayed list of merges of non-output factors is the sequence of a
path of its level, with the same network and cost. -/
theorem mem_allPaths_of_replay (merges : List (UInt32 × UInt32)) :
    ∀ reached : Replayed Tensor, NonOutputPairs merges →
      replay kind generator network merges = some reached →
      ∃ path ∈ allPaths kind generator numContractions network merges.length,
        path.network = reached.network ∧ path.cost = reached.total := by
  induction merges using List.reverseRecOn with
  | nil =>
    intro reached _ replayed
    cases replayed
    exact ⟨_, List.mem_singleton_self _, rfl, rfl⟩
  | append_singleton merges merge inductionHypothesis =>
    intro reached pairs replayed
    rw [replay_append] at replayed
    cases before : replay kind generator network merges with
    | none => simp [before, replayStep] at replayed
    | some earlier =>
      rw [before] at replayed
      obtain ⟨path, member, sameNetwork, sameCost⟩ := inductionHypothesis earlier
        (fun m listed => pairs m (List.mem_append_left _ listed)) before
      obtain ⟨leftId, rightId⟩ := merge
      obtain ⟨left, right, merged, foundLeft, foundRight, merge, rfl⟩ :=
        replayStep_eq_some replayed
      obtain ⟨leftFactor, rightFactor, ordered⟩ := pairs _ (List.mem_append_right _
        (List.mem_singleton_self _))
      rw [← sameNetwork] at foundLeft foundRight merge
      have listed : ((leftId, left), (rightId, right)) ∈ factorPairs path.network.tensors :=
        (mem_factorPairs path.network.sorted).mpr
          ⟨TensorNetwork.getTensor_eq_some.mp foundLeft,
            TensorNetwork.getTensor_eq_some.mp foundRight, leftFactor, rightFactor, ordered⟩
      rw [replay_steps before] at merge
      obtain ⟨child, contracted, childNetwork, childCost⟩ : ∃ child, contractPair kind
          (decide (merges.length = numContractions - 1)) (generator merges.length) path
          (leftId, left) (rightId, right) = some child ∧ child.network = merged ∧
          child.cost = kind.getTensorContractionCost left right + path.cost := by
        simp only [contractPair, merge, Option.map_some', Option.some.injEq, exists_eq_left',
          and_self]
      rw [List.length_append, List.length_singleton]
      exact ⟨child, List.mem_flatMap.mpr ⟨path, member, List.mem_filterMap.mpr
        ⟨_, listed, contracted⟩⟩, childNetwork, by rw [childCost, sameCost, Nat.add_comm]⟩

end Exhaustive

section Wide

variable {Tensor : Type} {kind : TensorKind Tensor} {rule : TopRule} {numWalkers : UInt32}
  {generator : Nat → UInt32} {network : TensorNetwork Tensor}

/-- A pass from an empty queue whose children fit the bound pushes them all, in
loop order. -/
theorem collectPaths_of_room {p : Nat} {queue : PriorityQueue (ContrPath Tensor)}
    {inputPaths : List (ContrPath Tensor)} (lastPass : Bool) (empty : queue.entries = [])
    (sound : ∀ path ∈ inputPaths, PathSound kind generator network p path)
    (fresh : FreshIds generator network (network.factorIds.length - 1))
    (unused : p < network.factorIds.length - 1)
    (room : (inputPaths.flatMap (children kind lastPass (generator p))).length ≤
      numWalkers.toNat) :
    ∃ priq, collectPaths kind rule numWalkers lastPass (generator p) queue inputPaths = .ok priq ∧
      priq.entries = inputPaths.flatMap (children kind lastPass (generator p)) := by
  have succeed : inputPaths.all (mergesSucceed kind (generator p)) = true :=
    List.all_eq_true.mpr fun path member => mergesSucceed_of_sound (sound path member) fresh unused
  refine ⟨_, by rw [collectPaths, if_pos succeed], ?_⟩
  rw [pushAll_of_le rule ContrPath.cost _ (by simpa [empty] using room), empty, List.nil_append]

/-- With a beam at least as wide as the number of complete schedules, the
planner never drops a path and returns a path of least cost among all
complete schedules. -/
theorem planner_returns_least (kind : TensorKind Tensor) (rule : TopRule)
    (wide : completeScheduleCount network.factorIds.length ≤ numWalkers.toNat)
    (factors : 2 ≤ network.factorIds.length)
    (fresh : FreshIds generator network (network.factorIds.length - 1)) :
    ∃ best : ContrPath Tensor, determineContractionSequence kind rule numWalkers network generator =
        .ok (best.sequence, best.cost) ∧
      ∀ path ∈ allPaths kind generator (network.factorIds.length - 1) network
        (network.factorIds.length - 1), best.cost ≤ path.cost := by
  obtain ⟨nonzero, passes⟩ := numContractions_toNat factors
  simp only [determineContractionSequence, if_neg nonzero, passes]
  obtain ⟨q, last⟩ : ∃ q, network.factorIds.length - 1 = q + 1 :=
    ⟨network.factorIds.length - 2, by omega⟩
  rw [last]
  have level : ∀ p ≤ q + 1, ∀ beam : List (ContrPath Tensor),
      beam.Perm (allPaths kind generator (q + 1) network p) →
      ∀ path ∈ beam, PathSound kind generator network p path :=
    fun p within beam same path member => allPaths_sound fresh p (by omega) path (same.subset member)
  have room : ∀ p ≤ q + 1,
      (allPaths kind generator (q + 1) network p).length ≤ numWalkers.toNat :=
    fun p within => Nat.le_trans (length_allPaths_le fresh (by omega)) wide
  refine passLoop_of_invariant kind rule numWalkers generator (q + 1)
    (fun p (beam : List (ContrPath Tensor)) => beam.Perm (allPaths kind generator (q + 1) network p))
    (fun best : ContrPath Tensor =>
      ∀ path ∈ allPaths kind generator (q + 1) network (q + 1), best.cost ≤ path.cost)
    (fun p beam queue before empty same => ?_) (fun beam queue empty same => ?_) (q + 1) 0 _ _ _
    (by omega) (by omega) rfl (List.Perm.refl _)
  · have next : (beam.flatMap (children kind false (generator p))).Perm
        (allPaths kind generator (q + 1) network (p + 1)) := by
      rw [allPaths, decide_eq_false (by omega : ¬ p = q + 1 - 1)]
      exact same.flatMap_right _
    obtain ⟨priq, collected, pushed⟩ := collectPaths_of_room false empty
      (level p (by omega) beam same) fresh (by omega)
      (Nat.le_trans (Nat.le_of_eq next.length_eq) (room (p + 1) (by omega)))
    exact ⟨priq, collected,
      (drain_perm rule ContrPath.cost _ _ rfl).1.trans (pushed ▸ next)⟩
  · rw [Nat.add_sub_cancel] at same ⊢
    have final : (beam.flatMap (children kind true (generator q))).Perm
        (allPaths kind generator (q + 1) network (q + 1)) := by
      rw [allPaths, decide_eq_true (Nat.add_sub_cancel q 1).symm]
      exact same.flatMap_right _
    have counted : (allPaths kind generator (q + 1) network (q + 1)).length *
        completeScheduleCount (network.factorIds.length - (q + 1)) =
          completeScheduleCount network.factorIds.length :=
      length_allPaths_mul fresh (q + 1) (by omega)
    have nonempty : beam.flatMap (children kind true (generator q)) ≠ [] := fun empty => by
      rw [← final.length_eq, empty, List.length_nil, Nat.zero_mul] at counted
      exact absurd counted.symm (Nat.pos_iff_ne_zero.mp (completeScheduleCount_pos _))
    obtain ⟨priq, collected, pushed⟩ := collectPaths_of_room true empty
      (level q (by omega) beam same) fresh (by omega)
      (Nat.le_trans (Nat.le_of_eq final.length_eq) (room (q + 1) (Nat.le_refl _)))
    obtain ⟨best, single, -, least⟩ := popToOne_least rule ContrPath.cost _ priq
      (pushed ▸ nonempty) (Nat.le_succ _)
    exact ⟨priq, best, collected, top_of_singleton rule _ single,
      fun path inLevel => least path (pushed ▸ final.symm.subset inLevel)⟩

/-- The beam search refines exhaustive search: with at least one walker, two or
more input factors and fresh generator ids, the planner returns a complete merge
schedule and its replayed cost, so a cost no smaller than that of the cheapest
schedule; and with at least as many walkers as there are complete schedules, no
complete schedule costs less than the returned value. -/
theorem beam_refines_exhaustive (kind : TensorKind Tensor) (rule : TopRule)
    (numWalkers : UInt32) (network : TensorNetwork Tensor) (generator : Nat → UInt32)
    (walkers : 1 ≤ numWalkers.toNat) (factors : 2 ≤ network.factorIds.length)
    (fresh : FreshIds generator network (network.factorIds.length - 1)) :
    ∃ sequence flops, determineContractionSequence kind rule numWalkers network generator =
        .ok (sequence, flops) ∧
      IsMergeSchedule kind generator network (sequence.map ContrTriple.pair) ∧
      (replay kind generator network (sequence.map ContrTriple.pair)).map Replayed.total =
        some flops ∧
      (completeScheduleCount network.factorIds.length ≤ numWalkers.toNat →
        ∀ merges reached, IsMergeSchedule kind generator network merges →
          replay kind generator network merges = some reached → flops ≤ reached.total) := by
  obtain ⟨best, returned, sound⟩ := planner_returns_sound kind rule walkers factors fresh
  have counted := (sound.reached fresh (Nat.le_refl _)).2
  refine ⟨best.sequence, best.cost, returned,
    ⟨by rw [List.length_map]; omega, sound.2, by rw [sound.1]; rfl⟩, by rw [sound.1]; rfl,
    fun wide merges reached schedule replayed => ?_⟩
  obtain ⟨least, returnedLeast, below⟩ := planner_returns_least kind rule wide factors fresh
  rw [returned, Except.ok.injEq, Prod.mk.injEq] at returnedLeast
  obtain ⟨path, member, -, cost⟩ := mem_allPaths_of_replay merges reached schedule.2.1 replayed
  have complete := schedule.1
  rw [show merges.length = network.factorIds.length - 1 by omega] at member
  rw [returnedLeast.2, ← cost]
  exact below path member

/-- On the dense chain, whose three factors have three complete schedules, a
beam of three walkers returns a complete schedule of least cost. -/
theorem denseChain_refines_exhaustive :
    1 ≤ (3 : UInt32).toNat ∧ 2 ≤ denseChain.factorIds.length ∧
      FreshIds countingFrom100 denseChain (denseChain.factorIds.length - 1) ∧
      completeScheduleCount denseChain.factorIds.length ≤ (3 : UInt32).toNat ∧
      ∃ sequence flops, determineContractionSequence denseKind TopRule.firstGreatest 3 denseChain
          countingFrom100 = .ok (sequence, flops) ∧
        IsMergeSchedule denseKind countingFrom100 denseChain (sequence.map ContrTriple.pair) ∧
        (replay denseKind countingFrom100 denseChain (sequence.map ContrTriple.pair)).map
          Replayed.total = some flops ∧
        (completeScheduleCount denseChain.factorIds.length ≤ (3 : UInt32).toNat →
          ∀ merges reached, IsMergeSchedule denseKind countingFrom100 denseChain merges →
            replay denseKind countingFrom100 denseChain merges = some reached →
              flops ≤ reached.total) :=
  ⟨by decide, by decide, by decide, by decide,
    beam_refines_exhaustive denseKind TopRule.firstGreatest 3 denseChain countingFrom100
      (by decide) (by decide) (by decide)⟩

/-- A wider beam is not always better. Four dense tensors: `T1` and `T2` share
bonds 1 and 3, `T1` and `T3` bond 2, `T2` and `T4` bond 0, and open legs go to
the output. With one walker the planner contracts `T3 T4` first and returns
306 flops; with two it keeps `T2 T4` and `T1 T3`, cheaper first steps, and
returns 351. The four factors have fresh intermediate ids, as the planner needs. -/
def denseFour : TensorNetwork DenseTensor :=
  ⟨[(0, [(4, 3), (5, 2), (6, 3)]), (1, [(1, 3), (2, 2), (3, 3), (4, 3)]),
    (2, [(0, 3), (1, 3), (3, 3)]), (3, [(2, 2), (5, 2)]), (4, [(0, 3), (6, 3)])], by decide⟩

/-- On `denseFour` with fresh ids, two walkers return 351 flops and one walker 306. -/
theorem two_walkers_cost_more_than_one :
    denseFour.factorIds.length = 4 ∧ FreshIds countingFrom100 denseFour 3 ∧
      (determineContractionSequence denseKind TopRule.firstGreatest 2 denseFour
        countingFrom100).toOption.map Prod.snd = some 351 ∧
      (determineContractionSequence denseKind TopRule.firstGreatest 1 denseFour
        countingFrom100).toOption.map Prod.snd = some 306 := by
  decide

/-- With at least as many walkers as there are complete schedules, the planner
returns no more than with one walker: the wide beam returns the least cost of a
complete schedule, and the one-walker result is the cost of a complete schedule. -/
theorem wide_beam_no_costlier_than_one_walker (kind : TensorKind Tensor) (rule : TopRule)
    (numWalkers : UInt32) (network : TensorNetwork Tensor) (generator : Nat → UInt32)
    (wide : completeScheduleCount network.factorIds.length ≤ numWalkers.toNat)
    (factors : 2 ≤ network.factorIds.length)
    (fresh : FreshIds generator network (network.factorIds.length - 1)) :
    ∃ wideResult narrowResult,
      determineContractionSequence kind rule numWalkers network generator = .ok wideResult ∧
      determineContractionSequence kind rule 1 network generator = .ok narrowResult ∧
      wideResult.2 ≤ narrowResult.2 := by
  obtain ⟨least, returnedLeast, below⟩ := planner_returns_least kind rule wide factors fresh
  obtain ⟨best, returned, sound⟩ := planner_returns_sound kind rule
    (show 1 ≤ (1 : UInt32).toNat by decide) factors fresh
  have counted := (sound.reached fresh (Nat.le_refl _)).2
  obtain ⟨path, member, -, cost⟩ : ∃ path ∈ allPaths kind generator
      (network.factorIds.length - 1) network (best.sequence.map ContrTriple.pair).length,
      path.network = best.network ∧ path.cost = best.cost :=
    mem_allPaths_of_replay _ _ sound.2 sound.1
  rw [List.length_map, counted] at member
  exact ⟨_, _, returnedLeast, returned, cost ▸ below path member⟩

/-- On the dense chain, three walkers, as many as its complete schedules, return no more than one walker. -/
theorem denseChain_wide_beam :
    completeScheduleCount denseChain.factorIds.length ≤ (3 : UInt32).toNat ∧
      2 ≤ denseChain.factorIds.length ∧
      FreshIds countingFrom100 denseChain (denseChain.factorIds.length - 1) ∧
      ∃ wideResult narrowResult,
        determineContractionSequence denseKind TopRule.firstGreatest 3 denseChain
          countingFrom100 = .ok wideResult ∧
        determineContractionSequence denseKind TopRule.firstGreatest 1 denseChain
          countingFrom100 = .ok narrowResult ∧
        wideResult.2 ≤ narrowResult.2 :=
  ⟨by decide, by decide, by decide,
    wide_beam_no_costlier_than_one_walker denseKind TopRule.firstGreatest 3 denseChain
      countingFrom100 (by decide) (by decide) (by decide)⟩

end Wide

end Exatn.Numerics
