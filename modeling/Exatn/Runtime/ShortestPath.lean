import Exatn.Runtime.DirectedBoostGraph
import Mathlib.Data.List.Nodup
import Mathlib.Logic.Relation

/-!
# Shortest paths over the dependency graph

`computeShortestPath` runs Boost's `dijkstra_shortest_paths` from a start
vertex into a `std::size_t` distance map and a predecessor map, weighted by the
graph's `edge_weight` property. Every edge is added by `add_edge` without a
property, so its weight is the value-initialised `double` 0.0, which the
`std::size_t` distance map reads as 0. The search initialises every distance to
the infinity `SIZE_MAX` and every predecessor to the vertex itself, then runs a
breadth-first visit over a heap of grey vertices: it pops one of least
distance, examines its out-edges in order (a white target is relaxed, coloured
grey and queued; a grey target is relaxed; a black one is left alone), and
blackens it. Which of equal distances the heap pops is left open (`PopRule`):
a heap's choice among equal keys depends on the order of its pushes, pops and
key decreases, so the rule may read that history.

With zero weights every discovered vertex gets distance 0. The search keeps the
invariant `SearchInvariant`, pops each vertex at most once, so `n` iterations
empty the queue, and at the end a vertex is discovered exactly when it is
reachable from the start: distance 0 there and `SIZE_MAX` elsewhere, the start
and every unreachable vertex their own predecessor, and every other reachable
vertex a reachable in-neighbour as predecessor. The distances are reported as
the `std::size_t` values that the source converts to `double`.
-/

namespace Exatn.Runtime

/-- `std::numeric_limits<std::size_t>::max()`, the distance map's infinity. -/
def sizeMax : Nat := 18446744073709551615

/-- Boost's `closed_plus` on `std::size_t`: the infinity absorbs. -/
def closedPlus (a b : Nat) : Nat :=
  if a = sizeMax then sizeMax else if b = sizeMax then sizeMax else a + b

/-- The weight of every edge as the distance map reads it: the value-initialised
`double` 0.0 of an edge added without a property. -/
def edgeWeight : Nat := 0

/-- A vertex at distance 0 relaxes its targets to 0. -/
@[simp] theorem closedPlus_zero : closedPlus 0 edgeWeight = 0 := by decide

/-- The colour map of the breadth-first visit. -/
inductive VertexColor
  | white
  | gray
  | black
  deriving DecidableEq, Repr

/-- An operation on the search's heap: a push of a vertex with its key, a pop,
or the decrease of a queued vertex's key (the heap's `update`). -/
inductive HeapEvent
  | push (vertex key : Nat)
  | pop
  | update (vertex key : Nat)
  deriving DecidableEq, Repr

/-- Which grey vertex the heap pops, by its position among the queued
vertices' distances, oldest first: one of least distance, chosen in view of the
operations made on the heap so far. -/
structure PopRule where
  pick : List HeapEvent → List Nat → Nat
  pick_lt : ∀ history keys, keys ≠ [] → pick history keys < keys.length
  pick_least : ∀ history keys (nonempty : keys ≠ []), ∀ key ∈ keys,
    keys.get ⟨pick history keys, pick_lt history keys nonempty⟩ ≤ key

/-- The least of a non-empty list of keys. -/
def leastKey : List Nat → Nat
  | [] => 0
  | [key] => key
  | key :: next :: rest => min key (leastKey (next :: rest))

/-- The position of the first least key. -/
def firstLeast : List Nat → Nat
  | [] => 0
  | [_] => 0
  | key :: next :: rest =>
    if key ≤ leastKey (next :: rest) then 0 else firstLeast (next :: rest) + 1

/-- The least key is at most every key. -/
theorem leastKey_le : ∀ {keys : List Nat} {key : Nat}, key ∈ keys → leastKey keys ≤ key
  | [], _, member => by cases member
  | [only], _, member => by rw [List.mem_singleton.mp member]; rfl
  | head :: next :: rest, key, member => by
    rw [leastKey]
    rcases List.mem_cons.mp member with rfl | later
    · exact Nat.min_le_left _ _
    · exact Nat.le_trans (Nat.min_le_right _ _) (leastKey_le later)

/-- The first least position lies in the list and holds the least key. -/
theorem firstLeast_spec : ∀ (keys : List Nat), keys ≠ [] →
    ∃ inside : firstLeast keys < keys.length, keys.get ⟨firstLeast keys, inside⟩ = leastKey keys
  | [], nonempty => absurd rfl nonempty
  | [_], _ => ⟨Nat.one_pos, rfl⟩
  | key :: next :: rest, _ => by
    by_cases first : key ≤ leastKey (next :: rest)
    · simp only [firstLeast, leastKey, if_pos first]
      exact ⟨Nat.succ_pos _, (Nat.min_eq_left first).symm⟩
    · obtain ⟨inside, found⟩ := firstLeast_spec (next :: rest) (List.cons_ne_nil _ _)
      simp only [firstLeast, if_neg first]
      refine ⟨Nat.succ_lt_succ inside, ?_⟩
      rw [leastKey, Nat.min_eq_right (Nat.le_of_not_le first)]
      exact found

/-- The rule that pops the oldest queued vertex of least distance, whatever
the history. -/
def PopRule.firstLeast : PopRule where
  pick _ := Exatn.Runtime.firstLeast
  pick_lt _ keys nonempty := (firstLeast_spec keys nonempty).1
  pick_least _ keys nonempty key member := by
    rw [(firstLeast_spec keys nonempty).2]
    exact leastKey_le member

/-- The state of the search: the distance, predecessor and colour maps, the
heap's grey vertices, oldest first, and the operations made on the heap. -/
structure DijkstraState where
  distance : Nat → Nat
  predecessor : Nat → Nat
  color : Nat → VertexColor
  queue : List Nat
  heapHistory : List HeapEvent

namespace DirectedBoostGraph

variable (rule : PopRule) (g : DirectedBoostGraph)

/-- Examines the out-edge `u → v` of the popped vertex `u`. A white target is a
tree edge: `relax_target`, then grey and pushed with its distance. A grey
target is relaxed, and a decreased distance is the heap's `update`, which
leaves the list of queued vertices as it is. A black target is left alone. -/
def examineEdge (u : Nat) (state : DijkstraState) (v : Nat) : DijkstraState :=
  let relaxed := closedPlus (state.distance u) edgeWeight
  match state.color v with
  | .white =>
    let distance :=
      if relaxed < state.distance v then Function.update state.distance v relaxed
      else state.distance
    { distance := distance
      predecessor :=
        if relaxed < state.distance v then Function.update state.predecessor v u
        else state.predecessor
      color := Function.update state.color v .gray
      queue := state.queue ++ [v]
      heapHistory := state.heapHistory ++ [.push v (distance v)] }
  | .gray =>
    if relaxed < state.distance v then
      { state with
        distance := Function.update state.distance v relaxed
        predecessor := Function.update state.predecessor v u
        heapHistory := state.heapHistory ++ [.update v relaxed] }
    else state
  | .black => state

/-- One iteration of the breadth-first visit: pop a grey vertex of least
distance, examine its out-edges in order, blacken it. -/
def visitStep (state : DijkstraState) : DijkstraState :=
  let i := rule.pick state.heapHistory (state.queue.map state.distance)
  let u := state.queue.getD i 0
  let examined := (g.getNeighborList u).foldl (examineEdge u)
    { state with queue := state.queue.eraseIdx i, heapHistory := state.heapHistory ++ [.pop] }
  { examined with color := Function.update examined.color u .black }

/-- The loop of the breadth-first visit, while the heap is not empty. -/
def visitLoop : Nat → DijkstraState → DijkstraState
  | 0, state => state
  | fuel + 1, state =>
    if state.queue = [] then state else visitLoop fuel (visitStep rule g state)

/-- The search's start: every distance infinite and every vertex its own
predecessor, then the start at distance 0, grey and queued. -/
def searchStart (startIndex : Nat) : DijkstraState where
  distance v := if v = startIndex then 0 else sizeMax
  predecessor v := v
  color v := if v = startIndex then .gray else .white
  queue := [startIndex]
  heapHistory := [.push startIndex 0]

/-- `computeShortestPath`: the distances and predecessors of the
`getNumNodes()` vertices, after at most one iteration per vertex. -/
def computeShortestPath (startIndex : Nat) : List Nat × List Nat :=
  let final := visitLoop rule g g.getNumNodes (searchStart startIndex)
  ((List.range g.getNumNodes).map final.distance, (List.range g.getNumNodes).map final.predecessor)

end DirectedBoostGraph

/-- The tree edge `u → v` to a white target, from a source at distance 0: what
`examineEdge` does there. -/
def DijkstraState.discover (state : DijkstraState) (u v : Nat) : DijkstraState where
  distance := Function.update state.distance v 0
  predecessor := Function.update state.predecessor v u
  color := Function.update state.color v .gray
  queue := state.queue ++ [v]
  heapHistory := state.heapHistory ++ [.push v 0]

/-- The loop's variant: the vertices below `n` that are not black. -/
def DijkstraState.unfinished (state : DijkstraState) (n : Nat) : Nat :=
  (List.range n).countP fun v => state.color v ≠ .black

namespace DijkstraState

variable (state : DijkstraState) (u v w : Nat)

/-- Discovering `v` sets its distance to 0. -/
@[simp] theorem discover_distance :
    (state.discover u v).distance w = if w = v then 0 else state.distance w :=
  Function.update_apply ..

/-- Discovering `v` from `u` makes `u` its predecessor. -/
@[simp] theorem discover_predecessor :
    (state.discover u v).predecessor w = if w = v then u else state.predecessor w :=
  Function.update_apply ..

/-- Discovering `v` colours it grey. -/
@[simp] theorem discover_color :
    (state.discover u v).color w = if w = v then .gray else state.color w :=
  Function.update_apply ..

/-- Discovering `v` queues it last. -/
@[simp] theorem discover_queue : (state.discover u v).queue = state.queue ++ [v] := rfl

end DijkstraState

namespace DirectedBoostGraph

/-- `v` is reachable from `source` along the edges of the graph. -/
def Reaches (g : DirectedBoostGraph) (source v : Nat) : Prop :=
  Relation.ReflTransGen (fun a b => b ∈ g.getNeighborList a) source v

/-- Every edge ends at an existing vertex. -/
def EdgesInRange (g : DirectedBoostGraph) : Prop :=
  ∀ u v, v ∈ g.getNeighborList u → v < g.getNumNodes

section EdgesInRange

variable {g : DirectedBoostGraph}

/-- `addDependency` keeps every edge in range: a new edge's target is covered by the vertex set it grows to. -/
theorem EdgesInRange.addDependency (ranged : g.EdgesInRange) (dependent dependee : Nat) :
    (g.addDependency dependent dependee).EdgesInRange := by
  intro u v member
  rw [getNeighborList_addDependency, List.mem_append] at member
  rw [getNumNodes_addDependency]
  rcases member with old | new
  · have := ranged u v old
    split <;> omega
  · split at new
    · next added =>
      rw [List.mem_singleton.mp new, if_pos added.2]
      omega
    · cases new

/-- A series of dependencies keeps every edge in range. -/
theorem EdgesInRange.addDependencies (ranged : g.EdgesInRange) (vid : Nat) (nodes : List Nat) :
    (g.addDependencies vid nodes).EdgesInRange := by
  induction nodes generalizing g with
  | nil => exact ranged
  | cons node rest inductionHypothesis => exact inductionHypothesis (ranged.addDependency vid node)

/-- The edge range does not read the execution state. -/
theorem EdgesInRange.setExecState (ranged : g.EdgesInRange) (s : TensorExecState) :
    ({ g with execState := s } : DirectedBoostGraph).EdgesInRange :=
  ranged

/-- Adding a vertex keeps every edge in range. -/
theorem EdgesInRange.addNode (ranged : g.EdgesInRange) (op : TensorOperation) :
    (g.addNode op).EdgesInRange := by
  intro u v member
  rw [getNeighborList_addNode] at member
  rw [getNumNodes_addNode]
  exact Nat.lt_succ_of_lt (ranged u v member)

/-- An input scan keeps every edge in range. -/
theorem EdgesInRange.scanInput (ranged : g.EdgesInRange) (vid tensor : Nat) :
    (scanInput vid g tensor).EdgesInRange := by
  by_cases writing : (g.execState.getTensorEpochNodes tensor).2 < 0
  · simp only [DirectedBoostGraph.scanInput, writing, if_true]
    exact (ranged.addDependencies _ _).setExecState _
  · simp only [DirectedBoostGraph.scanInput, writing, if_false]
    exact ranged.setExecState _

/-- The output scan keeps every edge in range. -/
theorem EdgesInRange.scanOutput (ranged : g.EdgesInRange) (vid tensor : Nat) :
    (scanOutput vid g tensor).EdgesInRange :=
  (ranged.addDependencies _ _).setExecState _

/-- The input scans keep every edge in range. -/
theorem EdgesInRange.foldl_scanInput (ranged : g.EdgesInRange) (vid : Nat) (tensors : List Nat) :
    (tensors.foldl (DirectedBoostGraph.scanInput vid) g).EdgesInRange := by
  induction tensors generalizing g with
  | nil => exact ranged
  | cons tensor rest inductionHypothesis => exact inductionHypothesis (ranged.scanInput vid tensor)

/-- Every public call keeps every edge in range. -/
theorem EdgesInRange.apply (ranged : g.EdgesInRange) : ∀ call, (g.apply call).EdgesInRange
  | .addOperation op => ((ranged.addNode op).scanOutput _ _).foldl_scanInput _ _
  | .addDependency dependent dependee => ranged.addDependency dependent dependee
  | .clear => fun u v member => by simp [DirectedBoostGraph.apply] at member

/-- Every graph the public calls build has its edges in range. -/
theorem edgesInRange_run (calls : List GraphCall) : (run calls).EdgesInRange := by
  suffices ∀ g : DirectedBoostGraph, g.EdgesInRange → (calls.foldl apply g).EdgesInRange from
    this empty (fun u v member => by simp [getNeighborList, empty] at member)
  induction calls with
  | nil => exact fun _ ranged => ranged
  | cons call rest inductionHypothesis =>
    exact fun g ranged => inductionHypothesis _ (ranged.apply call)

end EdgesInRange

/-- What the visit keeps from the start `source`, while `active` is the popped
vertex whose out-edges are being examined, if any. A vertex is seen once it is
no longer white. -/
structure SearchInvariant (g : DirectedBoostGraph) (source : Nat) (active : Option Nat)
    (state : DijkstraState) : Prop where
  white_distance : ∀ v, state.color v = .white → state.distance v = sizeMax
  white_predecessor : ∀ v, state.color v = .white → state.predecessor v = v
  seen_distance : ∀ v, state.color v ≠ .white → state.distance v = 0
  seen_reaches : ∀ v, state.color v ≠ .white → g.Reaches source v
  seen_lt : ∀ v, state.color v ≠ .white → v < g.getNumNodes
  source_seen : state.color source ≠ .white
  source_predecessor : state.predecessor source = source
  tree_edge : ∀ v, state.color v ≠ .white → v ≠ source →
    state.color (state.predecessor v) ≠ .white ∧ v ∈ g.getNeighborList (state.predecessor v)
  queue_gray : ∀ v ∈ state.queue, state.color v = .gray
  queue_nodup : state.queue.Nodup
  gray_queued : ∀ v, state.color v = .gray → v ∈ state.queue ∨ active = some v
  active_gray : ∀ u, active = some u → u ∉ state.queue ∧ state.color u = .gray
  black_closed : ∀ u, state.color u = .black → ∀ v ∈ g.getNeighborList u, state.color v ≠ .white

section Search

variable {rule : PopRule} {g : DirectedBoostGraph} {source u v : Nat} {state : DijkstraState}

/-- The search starts in its invariant, from an existing start vertex. -/
theorem searchStart_invariant (start : source < g.getNumNodes) :
    SearchInvariant g source none (searchStart source) := by
  have seen : ∀ v, (searchStart source).color v ≠ .white ↔ v = source := fun v => by
    by_cases same : v = source <;> simp [searchStart, same]
  refine
    { white_distance := fun v white => ?_
      white_predecessor := fun _ _ => rfl
      seen_distance := fun v visited => ?_
      seen_reaches := fun v visited => (seen v).mp visited ▸ Relation.ReflTransGen.refl
      seen_lt := fun v visited => (seen v).mp visited ▸ start
      source_seen := (seen source).mpr rfl
      source_predecessor := rfl
      tree_edge := fun v visited other => absurd ((seen v).mp visited) other
      queue_gray := fun v member => ?_
      queue_nodup := List.nodup_singleton _
      gray_queued := fun v gray => .inl (List.mem_singleton.mpr ((seen v).mp (by simp [gray])))
      active_gray := fun _ active => nomatch active
      black_closed := fun v black => ?_ }
  · simp [searchStart, mt (seen v).mpr (not_not.mpr white)]
  · simp [searchStart, (seen v).mp visited]
  · simp [searchStart, List.mem_singleton.mp member]
  · have := (seen v).mp (by simp [black])
    simp [searchStart, this] at black

/-- `examineEdge` from a vertex at distance 0 discovers a white target. -/
theorem examineEdge_of_white (zero : state.distance u = 0) (white : state.color v = .white)
    (infinite : state.distance v = sizeMax) : examineEdge u state v = state.discover u v := by
  have relaxed : 0 < state.distance v := by
    rw [infinite]
    decide
  simp only [examineEdge, white, zero, closedPlus_zero, if_pos relaxed, Function.update_same]
  rfl

/-- `examineEdge` leaves the state alone at a seen target at distance 0. -/
theorem examineEdge_of_seen (seen : state.color v ≠ .white) (zero : state.distance v = 0) :
    examineEdge u state v = state := by
  cases color : state.color v with
  | white => exact absurd color seen
  | gray => simp [examineEdge, color, zero]
  | black => simp [examineEdge, color]

/-- Discovering a white target of the active vertex keeps the invariant. -/
theorem SearchInvariant.discover (invariant : SearchInvariant g source (some u) state)
    (ranged : g.EdgesInRange) (white : state.color v = .white) (edge : v ∈ g.getNeighborList u) :
    SearchInvariant g source (some u) (state.discover u v) := by
  have fresh : ∀ w, state.color w ≠ .white → w ≠ v := fun w seen same => seen (same ▸ white)
  have active := invariant.active_gray u rfl
  have uSeen : state.color u ≠ .white := by simp [active.2]
  have seen : ∀ w, (state.discover u v).color w ≠ .white ↔ w = v ∨ state.color w ≠ .white :=
    fun w => by by_cases same : w = v <;> simp [same]
  have unseen : ∀ w, (state.discover u v).color w = .white → w ≠ v ∧ state.color w = .white :=
    fun w stillWhite => by simpa using mt (seen w).mpr (not_not.mpr stillWhite)
  have notQueued : v ∉ state.queue := fun queued => by
    simp [invariant.queue_gray v queued] at white
  refine
    { white_distance := fun w stillWhite => ?_
      white_predecessor := fun w stillWhite => ?_
      seen_distance := fun w visited => ?_
      seen_reaches := fun w visited => ?_
      seen_lt := fun w visited => ?_
      source_seen := (seen source).mpr (.inr invariant.source_seen)
      source_predecessor := by
        simp [fresh source invariant.source_seen, invariant.source_predecessor]
      tree_edge := fun w visited other => ?_
      queue_gray := fun w member => ?_
      queue_nodup := invariant.queue_nodup.append (List.nodup_singleton v)
        (List.disjoint_singleton.mpr notQueued)
      gray_queued := fun w gray => ?_
      active_gray := fun w same => ?_
      black_closed := fun w black x edge => ?_ }
  · obtain ⟨other, old⟩ := unseen w stillWhite
    simp [other, invariant.white_distance w old]
  · obtain ⟨other, old⟩ := unseen w stillWhite
    simp [other, invariant.white_predecessor w old]
  · rcases (seen w).mp visited with rfl | old
    · simp
    · simp [fresh w old, invariant.seen_distance w old]
  · rcases (seen w).mp visited with rfl | old
    · exact (invariant.seen_reaches u uSeen).tail edge
    · exact invariant.seen_reaches w old
  · rcases (seen w).mp visited with rfl | old
    · exact ranged u w edge
    · exact invariant.seen_lt w old
  · rcases (seen w).mp visited with rfl | old
    · simp [fresh u uSeen, uSeen, edge]
    · obtain ⟨parentSeen, parentEdge⟩ := invariant.tree_edge w old other
      simp [fresh w old, fresh _ parentSeen, parentSeen, parentEdge]
  · rcases List.mem_append.mp member with old | added
    · have gray := invariant.queue_gray w old
      simp [fresh w (by simp [gray]), gray]
    · simp [List.mem_singleton.mp added]
  · by_cases same : w = v
    · simp [same]
    · rw [DijkstraState.discover_color, if_neg same] at gray
      exact (invariant.gray_queued w gray).imp_left (List.mem_append_left _)
  · cases same
    simp [active.1, fresh u uSeen, active.2]
  · have other : w ≠ v := fun same => by simp [same] at black
    rw [DijkstraState.discover_color, if_neg other] at black
    exact (seen x).mpr (.inr (invariant.black_closed w black x edge))

/-- One examined out-edge of the popped vertex keeps the invariant, leaves its
target seen and changes no seen vertex's colour. -/
theorem SearchInvariant.examine (invariant : SearchInvariant g source (some u) state)
    (ranged : g.EdgesInRange) (edge : v ∈ g.getNeighborList u) :
    SearchInvariant g source (some u) (examineEdge u state v) ∧
      (examineEdge u state v).color v ≠ .white ∧
      ∀ w, state.color w ≠ .white → (examineEdge u state v).color w = state.color w := by
  by_cases white : state.color v = .white
  · have zero := invariant.seen_distance u (by simp [(invariant.active_gray u rfl).2])
    rw [examineEdge_of_white zero white (invariant.white_distance v white)]
    refine ⟨invariant.discover ranged white edge, by simp, fun w seen => ?_⟩
    have other : w ≠ v := fun same => seen (same ▸ white)
    simp [other]
  · rw [examineEdge_of_seen white (invariant.seen_distance v white)]
    exact ⟨invariant, white, fun _ _ => rfl⟩

/-- The out-edges examined in order keep the invariant, leave every target seen
and change no seen vertex's colour. -/
theorem SearchInvariant.examineAll (ranged : g.EdgesInRange) :
    ∀ (targets : List Nat) (state : DijkstraState), SearchInvariant g source (some u) state →
      (∀ v ∈ targets, v ∈ g.getNeighborList u) →
      SearchInvariant g source (some u) (targets.foldl (examineEdge u) state) ∧
      (∀ v ∈ targets, (targets.foldl (examineEdge u) state).color v ≠ .white) ∧
      ∀ w, state.color w ≠ .white → (targets.foldl (examineEdge u) state).color w = state.color w
  | [], _, invariant, _ => ⟨invariant, fun _ member => (nomatch member), fun _ _ => rfl⟩
  | v :: rest, state, invariant, edges => by
    obtain ⟨stepInvariant, seenNow, kept⟩ :=
      invariant.examine ranged (edges v (List.mem_cons_self _ _))
    obtain ⟨restInvariant, restSeen, restKept⟩ := examineAll ranged rest _ stepInvariant
      (fun w member => edges w (List.mem_cons_of_mem _ member))
    refine ⟨restInvariant, fun w member => ?_, fun w seen => ?_⟩
    · rcases List.mem_cons.mp member with rfl | later
      · rw [List.foldl_cons, restKept w seenNow]
        exact seenNow
      · exact restSeen w later
    · rw [List.foldl_cons, restKept w (by rw [kept w seen]; exact seen), kept w seen]

/-- The rule pops a queued vertex. -/
theorem pick_lt_length_queue (rule : PopRule) (nonempty : state.queue ≠ []) :
    rule.pick state.heapHistory (state.queue.map state.distance) < state.queue.length :=
  List.length_map state.queue state.distance ▸
    rule.pick_lt state.heapHistory _ (by simpa using nonempty)

/-- Popping the `i`-th queued vertex makes it the active one. -/
theorem SearchInvariant.pop (invariant : SearchInvariant g source none state) {i : Nat}
    (inside : i < state.queue.length) (history : List HeapEvent) :
    SearchInvariant g source (some state.queue[i])
      { state with queue := state.queue.eraseIdx i, heapHistory := history } := by
  have erased : ∀ w, w ∈ state.queue.eraseIdx i ↔ w ≠ state.queue[i] ∧ w ∈ state.queue := by
    intro w
    rw [← invariant.queue_nodup.erase_getElem i inside]
    exact invariant.queue_nodup.mem_erase_iff
  refine
    { invariant with
      queue_gray := fun w member => invariant.queue_gray w ((erased w).mp member).2
      queue_nodup := invariant.queue_nodup.sublist (List.eraseIdx_sublist _ _)
      gray_queued := fun w gray => ?_
      active_gray := fun w active => ?_ }
  · rcases invariant.gray_queued w gray with queued | current
    · by_cases popped : w = state.queue[i]
      · exact .inr (congrArg some popped.symm)
      · exact .inl ((erased w).mpr ⟨popped, queued⟩)
    · nomatch current
  · cases active
    exact ⟨fun member => ((erased _).mp member).1 rfl,
      invariant.queue_gray _ (List.getElem_mem inside)⟩

/-- Blackening the active vertex once its out-edges are examined. -/
theorem SearchInvariant.blacken (invariant : SearchInvariant g source (some u) state)
    (examined : ∀ v ∈ g.getNeighborList u, state.color v ≠ .white) :
    SearchInvariant g source none { state with color := Function.update state.color u .black } := by
  have active := invariant.active_gray u rfl
  have white : ∀ w, Function.update state.color u .black w = .white ↔ state.color w = .white :=
    fun w => by
      by_cases same : w = u
      · subst same
        simp [active.2]
      · rw [Function.update_noteq same]
  refine
    { white_distance := fun w gray => invariant.white_distance w ((white w).mp gray)
      white_predecessor := fun w gray => invariant.white_predecessor w ((white w).mp gray)
      seen_distance := fun w seen => invariant.seen_distance w (mt (white w).mpr seen)
      seen_reaches := fun w seen => invariant.seen_reaches w (mt (white w).mpr seen)
      seen_lt := fun w seen => invariant.seen_lt w (mt (white w).mpr seen)
      source_seen := mt (white source).mp invariant.source_seen
      source_predecessor := invariant.source_predecessor
      tree_edge := fun w seen other => ?_
      queue_gray := fun w member => ?_
      queue_nodup := invariant.queue_nodup
      gray_queued := fun w (gray : Function.update state.color u .black w = .gray) => ?_
      active_gray := fun _ none => nomatch none
      black_closed := fun w (black : Function.update state.color u .black w = .black) x edge =>
        mt (white x).mp ?_ }
  · obtain ⟨parentSeen, parentEdge⟩ := invariant.tree_edge w (mt (white w).mpr seen) other
    exact ⟨mt (white _).mp parentSeen, parentEdge⟩
  · have other : w ≠ u := fun same => active.1 (same ▸ member)
    simp [other, invariant.queue_gray w member]
  · have other : w ≠ u := fun same => by
      subst same
      simp at gray
    rw [Function.update_noteq other] at gray
    rcases invariant.gray_queued w gray with queued | current
    · exact .inl queued
    · exact absurd (Option.some.inj current).symm other
  · by_cases same : w = u
    · exact examined x (same ▸ edge)
    · rw [Function.update_noteq same] at black
      exact invariant.black_closed w black x edge

/-- A list count drops when one member leaves a predicate that only shrinks. -/
theorem countP_lt_countP {l : List Nat} {p q : Nat → Bool} (shrinks : ∀ v, q v → p v)
    {u : Nat} (member : u ∈ l) (before : p u) (after : ¬ q u) : l.countP q < l.countP p := by
  rw [List.countP_eq_length_filter, List.countP_eq_length_filter]
  have sublist := List.monotone_filter_right l shrinks
  refine Nat.lt_of_le_of_ne sublist.length_le fun same => after ?_
  have kept : u ∈ l.filter q := sublist.eq_of_length same ▸ List.mem_filter.mpr ⟨member, before⟩
  exact (List.mem_filter.mp kept).2

/-- One iteration from a non-empty heap keeps the invariant and blackens one
more vertex. -/
theorem SearchInvariant.step (invariant : SearchInvariant g source none state)
    (ranged : g.EdgesInRange) (nonempty : state.queue ≠ []) :
    SearchInvariant g source none (visitStep rule g state) ∧
      (visitStep rule g state).unfinished g.getNumNodes < state.unfinished g.getNumNodes := by
  have inside := pick_lt_length_queue rule nonempty
  have gray := invariant.queue_gray _ (List.getElem_mem inside)
  have seen : state.color state.queue[rule.pick state.heapHistory (state.queue.map state.distance)]
      ≠ .white := by simp [gray]
  obtain ⟨examinedInvariant, examined, kept⟩ := (invariant.pop inside _).examineAll ranged _ _
    fun _ => id
  simp only [visitStep, List.getD_eq_getElem?_getD, List.getElem?_eq_getElem inside,
    Option.getD_some]
  refine ⟨examinedInvariant.blacken examined, countP_lt_countP (fun w unfinished => ?_)
    (List.mem_range.mpr (invariant.seen_lt _ seen)) (by simp [gray]) (by simp)⟩
  simp only [ne_eq, decide_eq_true_eq, Function.update_apply] at unfinished ⊢
  intro black
  split_ifs at unfinished with same
  · exact unfinished rfl
  · exact unfinished (by rw [kept w (by simp [black])]; exact black)

/-- Enough iterations empty the heap: each one blackens a vertex below `n`. -/
theorem SearchInvariant.finish (rule : PopRule) (ranged : g.EdgesInRange) :
    ∀ (fuel : Nat) (state : DijkstraState), SearchInvariant g source none state →
      state.unfinished g.getNumNodes ≤ fuel →
      SearchInvariant g source none (visitLoop rule g fuel state) ∧
        (visitLoop rule g fuel state).queue = []
  | 0, state, invariant, bounded => by
    refine ⟨invariant, List.eq_nil_iff_forall_not_mem.mpr fun v queued => ?_⟩
    have gray := invariant.queue_gray v queued
    have counted : 0 < state.unfinished g.getNumNodes :=
      List.countP_pos_iff.mpr ⟨v, List.mem_range.mpr (invariant.seen_lt v (by simp [gray])),
        by simp [gray]⟩
    omega
  | fuel + 1, state, invariant, bounded => by
    by_cases empty : state.queue = []
    · rw [visitLoop, if_pos empty]
      exact ⟨invariant, empty⟩
    · obtain ⟨next, fewer⟩ := invariant.step ranged empty
      rw [visitLoop, if_neg empty]
      exact finish rule ranged fuel _ next (by omega)

/-- When the heap is empty, every vertex reachable from the start is seen. -/
theorem SearchInvariant.seen_of_reaches (invariant : SearchInvariant g source none state)
    (empty : state.queue = []) (reaches : g.Reaches source v) : state.color v ≠ .white := by
  induction reaches with
  | refl => exact invariant.source_seen
  | @tail a b _ edge seen =>
    have black : state.color a = .black := by
      cases color : state.color a with
      | white => exact absurd color seen
      | gray =>
        rcases invariant.gray_queued a color with queued | active
        · simp [empty] at queued
        · nomatch active
      | black => rfl
    exact invariant.black_closed a black b edge

/-- Following the predecessor of a seen vertex other than the start lowers a
rank, so every chain of predecessors from a seen vertex ends at the start. -/
def PredecessorsRanked (source : Nat) (state : DijkstraState) : Prop :=
  ∃ rank : Nat → Nat, ∀ v, state.color v ≠ .white → v ≠ source →
    rank (state.predecessor v) < rank v

/-- At the start only the start vertex is seen, with rank 0. -/
theorem predecessorsRanked_searchStart : PredecessorsRanked source (searchStart source) :=
  ⟨fun _ => 0, fun v seen other => absurd (by simpa [searchStart] using seen) other⟩

/-- A discovered vertex ranks one above the vertex that discovers it; no seen
vertex has it as predecessor yet. -/
theorem PredecessorsRanked.discover (ranked : PredecessorsRanked source state)
    (invariant : SearchInvariant g source (some u) state) (white : state.color v = .white) :
    PredecessorsRanked source (state.discover u v) := by
  obtain ⟨rank, lowers⟩ := ranked
  have fresh : ∀ w, state.color w ≠ .white → w ≠ v := fun w seen same => seen (same ▸ white)
  have uSeen : state.color u ≠ .white := by simp [(invariant.active_gray u rfl).2]
  refine ⟨Function.update rank v (rank u + 1), fun w seen other => ?_⟩
  by_cases same : w = v
  · subst same
    simp [fresh u uSeen]
  · have old : state.color w ≠ .white := by simpa [same] using seen
    simp [same, fresh _ (invariant.tree_edge w old other).1, lowers w old other]

/-- One examined out-edge keeps the predecessors ranked. -/
theorem PredecessorsRanked.examine (ranked : PredecessorsRanked source state)
    (invariant : SearchInvariant g source (some u) state) :
    PredecessorsRanked source (examineEdge u state v) := by
  by_cases white : state.color v = .white
  · rw [examineEdge_of_white (invariant.seen_distance u (by simp [(invariant.active_gray u rfl).2]))
      white (invariant.white_distance v white)]
    exact ranked.discover invariant white
  · rw [examineEdge_of_seen white (invariant.seen_distance v white)]
    exact ranked

/-- The out-edges examined in order keep the predecessors ranked. -/
theorem PredecessorsRanked.examineAll (ranged : g.EdgesInRange) :
    ∀ (targets : List Nat) (state : DijkstraState), SearchInvariant g source (some u) state →
      PredecessorsRanked source state → (∀ v ∈ targets, v ∈ g.getNeighborList u) →
      PredecessorsRanked source (targets.foldl (examineEdge u) state)
  | [], _, _, ranked, _ => ranked
  | v :: rest, _, invariant, ranked, edges =>
    examineAll ranged rest _ (invariant.examine ranged (edges v (List.mem_cons_self _ _))).1
      (ranked.examine invariant) fun w member => edges w (List.mem_cons_of_mem _ member)

/-- Blackening the active vertex leaves the seen vertices and their predecessors. -/
theorem PredecessorsRanked.blacken (ranked : PredecessorsRanked source state)
    (invariant : SearchInvariant g source (some u) state) :
    PredecessorsRanked source { state with color := Function.update state.color u .black } := by
  obtain ⟨rank, lowers⟩ := ranked
  refine ⟨rank, fun w seen other => lowers w ?_ other⟩
  by_cases same : w = u
  · simp [same, (invariant.active_gray u rfl).2]
  · simpa [Function.update_noteq same] using seen

/-- One iteration keeps the predecessors ranked. -/
theorem PredecessorsRanked.step (ranked : PredecessorsRanked source state)
    (invariant : SearchInvariant g source none state) (ranged : g.EdgesInRange)
    (nonempty : state.queue ≠ []) : PredecessorsRanked source (visitStep rule g state) := by
  have inside := pick_lt_length_queue rule nonempty
  have popped := invariant.pop inside (state.heapHistory ++ [.pop])
  simp only [visitStep, List.getD_eq_getElem?_getD, List.getElem?_eq_getElem inside,
    Option.getD_some]
  exact (ranked.examineAll ranged _ _ popped fun _ => id).blacken
    (popped.examineAll ranged _ _ fun _ => id).1

/-- The whole visit keeps the predecessors ranked. -/
theorem PredecessorsRanked.finish (rule : PopRule) (ranged : g.EdgesInRange) :
    ∀ (fuel : Nat) (state : DijkstraState), SearchInvariant g source none state →
      PredecessorsRanked source state → PredecessorsRanked source (visitLoop rule g fuel state)
  | 0, _, _, ranked => ranked
  | fuel + 1, state, invariant, ranked => by
    by_cases empty : state.queue = []
    · rw [visitLoop, if_pos empty]
      exact ranked
    · rw [visitLoop, if_neg empty]
      exact finish rule ranged fuel _ (invariant.step ranged empty).1
        (ranked.step invariant ranged empty)

/-- From a seen vertex, the predecessors lead back to the start along tree edges. -/
theorem PredecessorsRanked.trace (ranked : PredecessorsRanked source state)
    {active : Option Nat} (invariant : SearchInvariant g source active state) :
    ∀ v, state.color v ≠ .white →
      Relation.ReflTransGen (fun u w => state.predecessor w = u ∧ w ∈ g.getNeighborList u)
        source v := by
  obtain ⟨rank, lowers⟩ := ranked
  suffices ∀ r v, rank v = r → state.color v ≠ .white →
      Relation.ReflTransGen (fun u w => state.predecessor w = u ∧ w ∈ g.getNeighborList u)
        source v from fun v => this _ v rfl
  intro r
  induction r using Nat.strong_induction_on with
  | _ r inductionHypothesis =>
    intro v measured seen
    by_cases start : v = source
    · exact start ▸ .refl
    · obtain ⟨parentSeen, edge⟩ := invariant.tree_edge v seen start
      exact (inductionHypothesis _ (measured ▸ lowers v seen start) _ rfl parentSeen).tail
        ⟨rfl, edge⟩

end Search

/-- What `computeShortestPath` on every graph the public calls build,
from every existing start and for every choice among equal distances: one entry
per vertex, distance 0 at every vertex reachable from the start and `SIZE_MAX`
at every other, the start and every unreachable vertex their own predecessor,
and every other reachable vertex an in-neighbour at distance 0 as predecessor.
The distances count no edge: every edge weighs 0. -/
theorem distances_mark_reachability (rule : PopRule) (calls : List GraphCall) (startIndex : Nat)
    (start : startIndex < (run calls).getNumNodes) (distances paths : List Nat)
    (computed : computeShortestPath rule (run calls) startIndex = (distances, paths)) :
    distances.length = (run calls).getNumNodes ∧ paths.length = (run calls).getNumNodes ∧
      paths[startIndex]? = some startIndex ∧
      ∀ v < (run calls).getNumNodes,
        ((run calls).Reaches startIndex v → distances[v]? = some 0 ∧
          (v ≠ startIndex → ∃ u, paths[v]? = some u ∧ distances[u]? = some 0 ∧
            v ∈ (run calls).getNeighborList u)) ∧
        (¬ (run calls).Reaches startIndex v → distances[v]? = some sizeMax ∧ paths[v]? = some v) := by
  obtain ⟨invariant, empty⟩ := (searchStart_invariant start).finish rule
    (edgesInRange_run calls) _ _ (List.length_range _ ▸ List.countP_le_length _)
  simp only [computeShortestPath, Prod.mk.injEq] at computed
  obtain ⟨rfl, rfl⟩ := computed
  have entry : ∀ (f : Nat → Nat) v, v < (run calls).getNumNodes →
      ((List.range (run calls).getNumNodes).map f)[v]? = some (f v) := fun f v inside => by
    simp [inside]
  refine ⟨by simp, by simp, by rw [entry _ _ start, invariant.source_predecessor],
    fun v inside => ⟨fun reaches => ?_, fun unreached => ?_⟩⟩
  · have seen := invariant.seen_of_reaches empty reaches
    refine ⟨by rw [entry _ _ inside, invariant.seen_distance v seen], fun other => ?_⟩
    obtain ⟨parentSeen, edge⟩ := invariant.tree_edge v seen other
    exact ⟨_, entry _ _ inside, by
      rw [entry _ _ (invariant.seen_lt _ parentSeen), invariant.seen_distance _ parentSeen], edge⟩
  · have white := not_not.mp (mt (invariant.seen_reaches v) unreached)
    rw [entry _ _ inside, entry _ _ inside, invariant.white_distance v white,
      invariant.white_predecessor v white]
    exact ⟨rfl, rfl⟩

example : computeShortestPath PopRule.firstLeast
    (run [.addOperation ⟨1, []⟩, .addOperation ⟨2, [1]⟩]) 1 = ([0, 0], [1, 1]) := by
  decide

/-- Two operations, the second reading the tensor the first writes: one edge
`1 → 0`. -/
def readAfterWrite : List GraphCall := [.addOperation ⟨1, []⟩, .addOperation ⟨2, [1]⟩]

/-- From vertex 1, which depends on vertex 0 by an edge of documented weight
1.0, the distance to vertex 0 is 0. -/
theorem readAfterWrite_distance_zero :
    1 < (run readAfterWrite).getNumNodes ∧ (run readAfterWrite).dependencyExists 1 0 = true ∧
      (computeShortestPath PopRule.firstLeast (run readAfterWrite) 1).1[0]? = some 0 := by
  refine ⟨by decide, by decide, ?_⟩
  exact ((distances_mark_reachability PopRule.firstLeast readAfterWrite 1 (by decide) _ _ rfl).2.2.2
    0 (by decide)).1 (Relation.ReflTransGen.single (by decide)) |>.1

/-- On every graph the public calls build, from every existing start and for
every choice among equal distances, the predecessors `computeShortestPath`
returns form a tree rooted at the start: from every reachable vertex, following
the returned predecessors leads back to the start, each step along an edge of
the graph. No predecessor cycle can form. -/
theorem predecessors_trace_to_start (rule : PopRule) (calls : List GraphCall) (startIndex : Nat)
    (start : startIndex < (run calls).getNumNodes) (distances paths : List Nat)
    (computed : computeShortestPath rule (run calls) startIndex = (distances, paths)) (v : Nat)
    (reaches : (run calls).Reaches startIndex v) :
    Relation.ReflTransGen (fun u w => paths[w]? = some u ∧ w ∈ (run calls).getNeighborList u)
      startIndex v := by
  obtain ⟨invariant, empty⟩ := (searchStart_invariant start).finish rule
    (edgesInRange_run calls) _ _ (List.length_range _ ▸ List.countP_le_length _)
  have ranked := predecessorsRanked_searchStart.finish rule (edgesInRange_run calls)
    (run calls).getNumNodes _ (searchStart_invariant start)
  simp only [computeShortestPath, Prod.mk.injEq] at computed
  obtain ⟨rfl, rfl⟩ := computed
  refine (ranked.trace invariant v (invariant.seen_of_reaches empty reaches)).mono
    fun u w ⟨parent, edge⟩ => ⟨?_, edge⟩
  simp [edgesInRange_run calls u w edge, parent]

/-- From vertex 1 of the read-after-write graph, vertex 0 traces back to 1. -/
theorem readAfterWrite_traces_to_start :
    1 < (run readAfterWrite).getNumNodes ∧ (run readAfterWrite).Reaches 1 0 ∧
      Relation.ReflTransGen (fun u w =>
        (computeShortestPath PopRule.firstLeast (run readAfterWrite) 1).2[w]? = some u ∧
          w ∈ (run readAfterWrite).getNeighborList u) 1 0 :=
  ⟨by decide, .single (by decide), predecessors_trace_to_start PopRule.firstLeast readAfterWrite 1
    (by decide) _ _ rfl 0 (.single (by decide))⟩

end DirectedBoostGraph

end Exatn.Runtime
