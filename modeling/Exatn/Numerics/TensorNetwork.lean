import Mathlib.Data.List.Nodup
import Mathlib.Data.List.Perm.Basic
import Mathlib.Data.Nat.Choose.Basic

/-!
# Tensor networks as the contraction planner reads them

The planner reads a tensor network through a narrow interface: iteration over
its tensors by id, the output tensor at id 0 included, `getNumTensors`,
`mergeTensors` and a pairwise cost routine. None of it is under the sources, so
this module models that interface from the spec. Tensor ids are the
`unsigned int` keys of a map, so they are distinct and visited in increasing
order; `TensorNetwork` carries that order as a field. Tensors are left
abstract: a `TensorKind` gives the pairwise contraction cost, as an exact flop
count, and the tensor that fusing two factors leaves.

`replay` performs a list of pairwise merges, merge `p` into the `p`-th id of an
id generator as the planner does, and sums their costs. A merge schedule is a
list of `n - 1` unordered pairs of non-output factors that replays.
-/

namespace Exatn.Numerics

/-- One pairwise contraction step: tensor `resultId` is the contraction of
tensors `leftId` and `rightId`. -/
structure ContrTriple where
  resultId : UInt32
  leftId : UInt32
  rightId : UInt32
deriving DecidableEq, Repr

/-- The pair of tensors a contraction step merges. -/
def ContrTriple.pair (triple : ContrTriple) : UInt32 × UInt32 := (triple.leftId, triple.rightId)

/-- Modelled from the spec: the tensor routines the planner consumes, the
pairwise contraction cost and the tensor that fusing two factors leaves. -/
structure TensorKind (Tensor : Type) where
  getTensorContractionCost : Tensor → Tensor → Nat
  fuse : Tensor → Tensor → Tensor

/-- Modelled from the spec: a tensor network as the planner reads it, its
tensors in increasing id order, the output tensor at id 0 included. -/
structure TensorNetwork (Tensor : Type) where
  tensors : List (UInt32 × Tensor)
  sorted : tensors.Pairwise (fun a b => a.1 < b.1)

/-- Inserts an entry at its place in increasing id order, as a map insertion does. -/
def insertById {Tensor : Type} (entry : UInt32 × Tensor) :
    List (UInt32 × Tensor) → List (UInt32 × Tensor)
  | [] => [entry]
  | head :: rest =>
    if entry.1 < head.1 then entry :: head :: rest else head :: insertById entry rest

/-- The pairs of factors the planner's nested iterator loops visit: `(i, j)`
with `i` before `j`, neither of them the output tensor 0. -/
def factorPairs {Tensor : Type} :
    List (UInt32 × Tensor) → List ((UInt32 × Tensor) × (UInt32 × Tensor))
  | [] => []
  | first :: rest =>
    (if first.1 ≠ 0 then (rest.filter (·.1 ≠ 0)).map (first, ·) else []) ++ factorPairs rest

section Entries

variable {Tensor : Type} {entry : UInt32 × Tensor} {entries : List (UInt32 × Tensor)}

/-- Inserting by id adds the entry and nothing else. -/
theorem insertById_perm (entry : UInt32 × Tensor) (entries : List (UInt32 × Tensor)) :
    (insertById entry entries).Perm (entry :: entries) := by
  induction entries with
  | nil => exact List.Perm.refl _
  | cons head rest inductionHypothesis =>
    simp only [insertById]
    split
    · exact List.Perm.refl _
    · exact (inductionHypothesis.cons head).trans (List.Perm.swap entry head rest)

/-- Inserting an entry with a fresh id keeps the entries sorted by id. -/
theorem sorted_insertById (sorted : entries.Pairwise (fun a b => a.1 < b.1))
    (fresh : entry.1 ∉ entries.map Prod.fst) :
    (insertById entry entries).Pairwise (fun a b => a.1 < b.1) := by
  induction entries with
  | nil => exact List.pairwise_singleton _ _
  | cons head rest inductionHypothesis =>
    obtain ⟨below, sortedRest⟩ := List.pairwise_cons.mp sorted
    have other : entry.1 ≠ head.1 := fun same => fresh (same ▸ List.mem_cons_self _ _)
    simp only [insertById]
    split
    · next before =>
      refine List.Pairwise.cons (fun x member => ?_) sorted
      rcases List.mem_cons.mp member with rfl | later
      · exact before
      · exact Nat.lt_trans before (below x later)
    · next after =>
      have headFirst : head.1 < entry.1 := by
        have : head.1.toNat ≠ entry.1.toNat := fun same => other (UInt32.toNat.inj same).symm
        change ¬ entry.1.toNat < head.1.toNat at after
        change head.1.toNat < entry.1.toNat
        omega
      refine List.Pairwise.cons (fun x member => ?_)
        (inductionHypothesis sortedRest (fun later => fresh (List.mem_cons_of_mem _ later)))
      rcases List.mem_cons.mp ((insertById_perm entry rest).subset member) with rfl | later
      · exact headFirst
      · exact below x later

/-- Distinct ids: a sorted entry list has no id twice. -/
theorem nodup_ids (sorted : entries.Pairwise (fun a b => a.1 < b.1)) :
    (entries.map Prod.fst).Nodup :=
  List.pairwise_map.mpr (sorted.imp fun {a b} before same => by
    rw [same] at before
    exact Nat.lt_irrefl _ before)

/-- The loops visit exactly the pairs of non-output factors with the smaller id
first. -/
theorem mem_factorPairs (sorted : entries.Pairwise (fun a b => a.1 < b.1))
    {left right : UInt32 × Tensor} :
    (left, right) ∈ factorPairs entries ↔
      left ∈ entries ∧ right ∈ entries ∧ left.1 ≠ 0 ∧ right.1 ≠ 0 ∧ left.1 < right.1 := by
  induction entries with
  | nil => simp [factorPairs]
  | cons first rest inductionHypothesis =>
    obtain ⟨below, sortedRest⟩ := List.pairwise_cons.mp sorted
    simp only [factorPairs, List.mem_append, inductionHypothesis sortedRest, List.mem_cons]
    constructor
    · rintro (visited | ⟨inLeft, inRight, leftFactor, rightFactor, before⟩)
      · split at visited
        · next firstFactor =>
          obtain ⟨second, inRest, same⟩ := List.mem_map.mp visited
          obtain ⟨member, secondFactor⟩ := List.mem_filter.mp inRest
          cases same
          exact ⟨.inl rfl, .inr member, firstFactor, of_decide_eq_true secondFactor,
            below _ member⟩
        · cases visited
      · exact ⟨.inr inLeft, .inr inRight, leftFactor, rightFactor, before⟩
    · rintro ⟨inLeft | inLeft, inRight | inRight, leftFactor, rightFactor, before⟩
      · subst inLeft inRight
        exact absurd before (Nat.lt_irrefl _)
      · subst inLeft
        left
        rw [if_pos leftFactor]
        exact List.mem_map.mpr ⟨right, List.mem_filter.mpr ⟨inRight, decide_eq_true rightFactor⟩, rfl⟩
      · subst inRight
        exact absurd (Nat.lt_trans before (below _ inLeft)) (Nat.lt_irrefl _)
      · exact .inr ⟨inLeft, inRight, leftFactor, rightFactor, before⟩

/-- A network that holds only its output tensor has no pair of factors. -/
theorem factorPairs_eq_nil (outputOnly : ∀ entry ∈ entries, entry.1 = 0) :
    factorPairs entries = [] := by
  induction entries with
  | nil => rfl
  | cons first rest inductionHypothesis =>
    rw [factorPairs, if_neg (not_not.mpr (outputOnly first (List.mem_cons_self _ _))),
      inductionHypothesis (fun entry member => outputOnly entry (List.mem_cons_of_mem _ member))]
    rfl

/-- `k` factors give `k choose 2` pairs. -/
theorem length_factorPairs (entries : List (UInt32 × Tensor)) :
    (factorPairs entries).length = (entries.filter (·.1 ≠ 0)).length.choose 2 := by
  induction entries with
  | nil => rfl
  | cons first rest inductionHypothesis =>
    simp only [factorPairs, List.length_append, inductionHypothesis, List.filter_cons]
    split
    · next factor =>
      rw [if_pos (decide_eq_true factor), List.length_map, List.length_cons,
        Nat.choose_succ_succ, Nat.choose_one_right]
    · next output =>
      rw [if_neg (fun kept => output (of_decide_eq_true kept)), List.length_nil, Nat.zero_add]

end Entries

namespace TensorNetwork

variable {Tensor : Type}

/-- The ids of all tensors, the output tensor included. -/
def ids (network : TensorNetwork Tensor) : List UInt32 := network.tensors.map Prod.fst

/-- The ids of the input factors: every id but the output tensor's 0. -/
def factorIds (network : TensorNetwork Tensor) : List UInt32 := network.ids.filter (· ≠ 0)

/-- The number of input factors, as the `unsigned int` the network returns. -/
def getNumTensors (network : TensorNetwork Tensor) : UInt32 := network.factorIds.length.toUInt32

/-- The tensor with a given id. -/
def getTensor (network : TensorNetwork Tensor) (id : UInt32) : Option Tensor :=
  network.tensors.lookup id

/-- Fuses factors `leftId` and `rightId` into a new factor `resultId`, removing
the two. It fails unless both are present and distinct and no other tensor has
the id `resultId`. -/
def mergeTensors (kind : TensorKind Tensor) (network : TensorNetwork Tensor)
    (leftId rightId resultId : UInt32) : Option (TensorNetwork Tensor) :=
  match network.getTensor leftId, network.getTensor rightId with
  | some left, some right =>
    let rest := network.tensors.filter fun entry => entry.1 ≠ leftId ∧ entry.1 ≠ rightId
    if fresh : leftId ≠ rightId ∧ resultId ∉ rest.map Prod.fst then
      some ⟨insertById (resultId, kind.fuse left right) rest,
        sorted_insertById (network.sorted.filter _) fresh.2⟩
    else none
  | _, _ => none

/-- The ids of a network are distinct. -/
theorem nodup_ids_network (network : TensorNetwork Tensor) : network.ids.Nodup :=
  nodup_ids network.sorted

/-- The factors are the entries whose id is not the output's. -/
theorem length_factorIds (network : TensorNetwork Tensor) :
    network.factorIds.length = (network.tensors.filter (·.1 ≠ 0)).length := by
  rw [factorIds, ids, List.filter_map, List.length_map]
  rfl

/-- Ids are `unsigned int`, so a network has fewer than `UInt32.size = 2^32` input
factors. -/
theorem length_factorIds_lt (network : TensorNetwork Tensor) :
    network.factorIds.length < UInt32.size := by
  have distinct : (0 :: network.factorIds).Nodup :=
    List.nodup_cons.mpr ⟨fun member => of_decide_eq_true (List.mem_filter.mp member).2 rfl,
      network.nodup_ids_network.filter _⟩
  have bounded := (List.subperm_of_subset
    (distinct.map fun _ _ same => UInt32.toNat.inj same)
    (fun k member => by
      obtain ⟨id, -, rfl⟩ := List.mem_map.mp member
      exact List.mem_range.mpr (UInt32.toNat_lt_size id))).length_le
  simp only [List.length_map, List.length_cons, List.length_range] at bounded
  exact bounded

/-- The `unsigned int` count of input factors is exact. -/
theorem toNat_getNumTensors (network : TensorNetwork Tensor) :
    network.getNumTensors.toNat = network.factorIds.length :=
  UInt32.toNat_ofNat_of_lt (length_factorIds_lt network)

/-- The entries of a network without input factors all have id 0. -/
theorem output_only {network : TensorNetwork Tensor} (noFactors : network.factorIds = [])
    {entry : UInt32 × Tensor} (member : entry ∈ network.tensors) : entry.1 = 0 := by
  by_contra factor
  have listed : entry.1 ∈ network.factorIds :=
    List.mem_filter.mpr ⟨List.mem_map_of_mem _ member, decide_eq_true factor⟩
  rw [noFactors] at listed
  cases listed

/-- `getTensor` finds exactly the entries of the network. -/
theorem getTensor_eq_some {network : TensorNetwork Tensor} {tensorId : UInt32} {tensor : Tensor} :
    network.getTensor tensorId = some tensor ↔ (tensorId, tensor) ∈ network.tensors := by
  obtain ⟨entries, sorted⟩ := network
  simp only [getTensor]
  induction entries with
  | nil => simp
  | cons head rest inductionHypothesis =>
    obtain ⟨key, value⟩ := head
    obtain ⟨below, sortedRest⟩ := List.pairwise_cons.mp sorted
    rw [List.lookup_cons, List.mem_cons]
    by_cases same : tensorId = key
    · subst same
      have absent : (tensorId, tensor) ∉ rest := fun later =>
        Nat.lt_irrefl _ (below (tensorId, tensor) later)
      simp only [beq_self_eq_true, Option.some.injEq, Prod.mk.injEq, true_and, absent, or_false]
      exact eq_comm
    · simp only [beq_false_of_ne same, Prod.mk.injEq, same, false_and, false_or]
      exact inductionHypothesis sortedRest

/-- `getTensor` finds every entry by its id. -/
theorem getTensor_of_mem {network : TensorNetwork Tensor} {entry : UInt32 × Tensor}
    (member : entry ∈ network.tensors) : network.getTensor entry.1 = some entry.2 :=
  getTensor_eq_some.mpr member

/-- An id `getTensor` finds is an id of the network. -/
theorem mem_ids_of_getTensor {network : TensorNetwork Tensor} {id : UInt32} {tensor : Tensor}
    (found : network.getTensor id = some tensor) : id ∈ network.ids :=
  List.mem_map.mpr ⟨_, getTensor_eq_some.mp found, rfl⟩

/-- Spec of `mergeTensors`: when both factors are present and distinct and the
new id is not taken by another tensor, the merge succeeds, and the new network
holds the other tensors and the fused one. -/
theorem mergeTensors_eq_some (kind : TensorKind Tensor) (network : TensorNetwork Tensor)
    {leftId rightId resultId : UInt32} {left right : Tensor}
    (foundLeft : network.getTensor leftId = some left)
    (foundRight : network.getTensor rightId = some right) (distinct : leftId ≠ rightId)
    (fresh : resultId ∉ (network.tensors.filter fun entry =>
      entry.1 ≠ leftId ∧ entry.1 ≠ rightId).map Prod.fst) :
    ∃ merged, network.mergeTensors kind leftId rightId resultId = some merged ∧
      merged.tensors = insertById (resultId, kind.fuse left right)
        (network.tensors.filter fun entry => entry.1 ≠ leftId ∧ entry.1 ≠ rightId) := by
  simp only [mergeTensors, foundLeft, foundRight, dif_pos (And.intro distinct fresh)]
  exact ⟨_, rfl, rfl⟩

/-- A merge needs both factors. -/
theorem mergeTensors_found {kind : TensorKind Tensor} {network merged : TensorNetwork Tensor}
    {leftId rightId resultId : UInt32}
    (merge : network.mergeTensors kind leftId rightId resultId = some merged) :
    ∃ left right, network.getTensor leftId = some left ∧ network.getTensor rightId = some right ∧
      leftId ≠ rightId ∧ merged.tensors = insertById (resultId, kind.fuse left right)
        (network.tensors.filter fun entry => entry.1 ≠ leftId ∧ entry.1 ≠ rightId) := by
  simp only [mergeTensors] at merge
  split at merge
  · next left right foundLeft foundRight =>
    split at merge
    · next fresh =>
      cases merge
      exact ⟨left, right, foundLeft, foundRight, fresh.1, rfl⟩
    · cases merge
  · cases merge

/-- The ids after a merge: the new id, and the old ids but the two merged. -/
theorem ids_merge_perm {kind : TensorKind Tensor} {network merged : TensorNetwork Tensor}
    {leftId rightId resultId : UInt32}
    (merge : network.mergeTensors kind leftId rightId resultId = some merged) :
    merged.ids.Perm (resultId :: network.ids.filter fun id => id ≠ leftId ∧ id ≠ rightId) := by
  obtain ⟨left, right, -, -, -, tensors⟩ := mergeTensors_found merge
  rw [ids, tensors, ids, List.filter_map]
  exact (insertById_perm _ _).map Prod.fst

/-- A merge replaces the two merged ids by the result id. -/
theorem mem_ids_merge {kind : TensorKind Tensor} {network merged : TensorNetwork Tensor}
    {leftId rightId resultId : UInt32}
    (merge : network.mergeTensors kind leftId rightId resultId = some merged) {id : UInt32} :
    id ∈ merged.ids ↔ id = resultId ∨ (id ∈ network.ids ∧ id ≠ leftId ∧ id ≠ rightId) := by
  simp only [(ids_merge_perm merge).mem_iff, List.mem_cons, List.mem_filter, decide_eq_true_eq]

/-- Two ids leave a list without repeats when it holds both once. -/
theorem length_filter_two {ids : List UInt32} (distinct : ids.Nodup) {a b : UInt32}
    (hasA : a ∈ ids) (hasB : b ∈ ids) (different : a ≠ b) :
    (ids.filter fun id => id ≠ a ∧ id ≠ b).length + 2 = ids.length := by
  have whole := (List.perm_cons_erase hasA).trans
    ((List.perm_cons_erase ((List.mem_erase_of_ne different.symm).mpr hasB)).cons a)
  have rest := whole.nodup_iff.mp distinct
  simp only [List.nodup_cons, List.mem_cons, not_or] at rest
  have kept : ((ids.erase a).erase b).filter (fun id => id ≠ a ∧ id ≠ b) = (ids.erase a).erase b :=
    List.filter_eq_self.mpr fun id member => decide_eq_true
      ⟨fun same => rest.1.2 (same ▸ member), fun same => rest.2.1 (same ▸ member)⟩
  rw [(whole.filter _).length_eq, whole.length_eq, List.filter_cons_of_neg (by simp),
    List.filter_cons_of_neg (by simp), kept]
  rfl

/-- A merge of two factors into a new non-zero id takes one factor away. -/
theorem length_factorIds_merge {kind : TensorKind Tensor} {network merged : TensorNetwork Tensor}
    {leftId rightId resultId : UInt32}
    (merge : network.mergeTensors kind leftId rightId resultId = some merged)
    (leftFactor : leftId ≠ 0) (rightFactor : rightId ≠ 0) (resultFactor : resultId ≠ 0) :
    merged.factorIds.length + 1 = network.factorIds.length := by
  obtain ⟨left, right, foundLeft, foundRight, distinct, -⟩ := mergeTensors_found merge
  have factor : ∀ {id}, id ∈ network.ids → id ≠ 0 → id ∈ network.factorIds := fun member nonzero =>
    List.mem_filter.mpr ⟨member, decide_eq_true nonzero⟩
  have two : (network.factorIds.filter fun id => id ≠ leftId ∧ id ≠ rightId).length + 2 =
      network.factorIds.length := length_filter_two (network.nodup_ids_network.filter _)
    (factor (mem_ids_of_getTensor foundLeft) leftFactor)
    (factor (mem_ids_of_getTensor foundRight) rightFactor) distinct
  have swap : (network.ids.filter fun id => id ≠ leftId ∧ id ≠ rightId).filter (· ≠ 0) =
      network.factorIds.filter fun id => id ≠ leftId ∧ id ≠ rightId := by
    simp only [factorIds, List.filter_filter, Bool.and_comm]
  have count : merged.factorIds.length =
      (network.factorIds.filter fun id => id ≠ leftId ∧ id ≠ rightId).length + 1 := by
    rw [factorIds, ((ids_merge_perm merge).filter _).length_eq, List.filter_cons,
      if_pos (decide_eq_true resultFactor), List.length_cons, swap]
  omega

end TensorNetwork

end Exatn.Numerics
