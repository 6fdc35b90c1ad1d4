import Mathlib.Data.List.Perm.Basic
import Mathlib.Data.List.Sort

/-!
# The bounded worst-on-top priority queue

The planner keeps its candidate paths in a `std::priority_queue` with the
costliest path on top, and bounds it: after each `emplace` it pops the top when
the queue holds more than `num_walkers` entries. It empties the queue either by
draining it, top first, or by popping down to one entry.

The standard fixes which entry `top` returns only up to equal costs, and a
binary heap's choice among equal costs depends on the order of the pushes and
pops that built it, not only on the entries it holds. So a queue is the list of
its entries, oldest first, with its history of pushes and pops, and a `TopRule`
is any choice of a position of greatest cost that may read that history.
Every result here holds for every rule.

What the bound is for: after any sequence of pushes the queue holds, as a
multiset of costs, the `num_walkers` least costs pushed (`KeepsLeast`). Each
push keeps this, whichever of equal costs the rule pops, and a choice of least
costs is, as a multiset, a prefix of the costs in ascending order.
-/

namespace Exatn.Numerics

/-- An operation made on a queue, as a tie rule sees it: a push of an entry of
the given cost, or a pop. -/
inductive QueueEvent
  | push (cost : Nat)
  | pop
  deriving DecidableEq, Repr

/-- Which entry `std::priority_queue::top` returns, by its position among the
entries' costs, oldest entry first: one of greatest cost, chosen in view of the
pushes and pops made on the queue since it was constructed. -/
structure TopRule where
  pick : List QueueEvent → List Nat → Nat
  pick_lt : ∀ history costs, costs ≠ [] → pick history costs < costs.length
  pick_greatest : ∀ history costs (nonempty : costs ≠ []), ∀ cost ∈ costs,
    cost ≤ costs.get ⟨pick history costs, pick_lt history costs nonempty⟩

/-- A `std::priority_queue`: its entries, oldest first, and the pushes and pops
made on it since it was constructed, oldest first. -/
structure PriorityQueue (α : Type) where
  entries : List α
  history : List QueueEvent

/-- The greatest of a list of costs, 0 for none. -/
def greatest : List Nat → Nat
  | [] => 0
  | cost :: rest => max cost (greatest rest)

/-- The position of the first greatest cost. -/
def firstGreatest : List Nat → Nat
  | [] => 0
  | cost :: rest => if greatest rest ≤ cost then 0 else firstGreatest rest + 1

/-- Every cost is at most the greatest. -/
theorem le_greatest {costs : List Nat} {cost : Nat} (member : cost ∈ costs) : cost ≤ greatest costs := by
  induction costs with
  | nil => cases member
  | cons head rest inductionHypothesis =>
    rcases List.mem_cons.mp member with rfl | later
    · exact Nat.le_max_left _ _
    · exact Nat.le_trans (inductionHypothesis later) (Nat.le_max_right _ _)

/-- The first greatest position lies in the list and holds the greatest cost. -/
theorem firstGreatest_spec : ∀ (costs : List Nat), costs ≠ [] →
    ∃ inside : firstGreatest costs < costs.length,
      costs.get ⟨firstGreatest costs, inside⟩ = greatest costs
  | [], nonempty => absurd rfl nonempty
  | cost :: rest, _ => by
    by_cases first : greatest rest ≤ cost
    · simp only [firstGreatest, greatest, if_pos first]
      exact ⟨Nat.succ_pos _, (Nat.max_eq_left first).symm⟩
    · have later : rest ≠ [] := by
        rintro rfl
        exact first (Nat.zero_le _)
      obtain ⟨inside, found⟩ := firstGreatest_spec rest later
      simp only [firstGreatest, greatest, if_neg first]
      exact ⟨Nat.succ_lt_succ inside, by
        rw [Nat.max_eq_right (Nat.le_of_not_le first)]
        exact found⟩

/-- The rule that picks the oldest entry of greatest cost, whatever the history. -/
def TopRule.firstGreatest : TopRule where
  pick _ := Exatn.Numerics.firstGreatest
  pick_lt _ costs nonempty := (firstGreatest_spec costs nonempty).1
  pick_greatest _ costs nonempty cost member := by
    rw [(firstGreatest_spec costs nonempty).2]
    exact le_greatest member

/-- An entry of a list sits next to the list without it. -/
theorem perm_cons_eraseIdx {α : Type} (entries : List α) (i : Nat) (inside : i < entries.length) :
    entries.Perm (entries[i] :: entries.eraseIdx i) := by
  have split : entries.take i ++ entries[i] :: entries.drop (i + 1) = entries := by
    rw [← List.drop_eq_getElem_cons inside, List.take_append_drop]
  have moved := @List.perm_middle _ entries[i] (entries.take i) (entries.drop (i + 1))
  rwa [split, ← List.eraseIdx_eq_take_drop_succ] at moved

/-- `kept` is a choice of the `count` least keys of `seen`, as a multiset: the
keys left out are no less than any kept key. -/
def KeepsLeast (count : Nat) (kept seen : List Nat) : Prop :=
  ∃ rest, (kept ++ rest).Perm seen ∧ kept.length = min count seen.length ∧
    ∀ a ∈ kept, ∀ b ∈ rest, a ≤ b

section Choice

variable {count : Nat} {kept seen : List Nat}

/-- Nothing kept of nothing seen is a choice of least keys. -/
theorem keepsLeast_nil (count : Nat) : KeepsLeast count [] [] :=
  ⟨[], List.Perm.refl _, by simp, by simp⟩

/-- A choice of the `count` least keys is, as a multiset, the first `count` keys
in ascending order. -/
theorem KeepsLeast.perm_take_insertionSort (keeps : KeepsLeast count kept seen) :
    kept.Perm ((seen.insertionSort (· ≤ ·)).take count) := by
  obtain ⟨rest, split, counted, ordered⟩ := keeps
  have sortedKept := List.perm_insertionSort (· ≤ ·) kept
  have sortedRest := List.perm_insertionSort (· ≤ ·) rest
  have sorted : seen.insertionSort (· ≤ ·) =
      kept.insertionSort (· ≤ ·) ++ rest.insertionSort (· ≤ ·) :=
    List.eq_of_perm_of_sorted
      ((List.perm_insertionSort _ seen).trans (split.symm.trans (sortedKept.append sortedRest).symm))
      (List.sorted_insertionSort _ seen)
      (List.pairwise_append.mpr ⟨List.sorted_insertionSort _ kept, List.sorted_insertionSort _ rest,
        fun a inKept b inRest => ordered a (sortedKept.subset inKept) b (sortedRest.subset inRest)⟩)
  have lengths : kept.length + rest.length = seen.length := by simpa using split.length_eq
  have dropped : (rest.insertionSort (· ≤ ·)).take (count - kept.length) = [] := by
    rw [List.take_eq_nil_iff, ← List.length_eq_zero, List.length_insertionSort]
    omega
  rw [sorted, List.take_append_eq_append_take, List.length_insertionSort, dropped, List.append_nil,
    List.take_of_length_le (by rw [List.length_insertionSort]; omega)]
  exact sortedKept.symm

/-- A key added while fewer than `count` are kept is kept. -/
theorem KeepsLeast.append (keeps : KeepsLeast count kept seen) (room : kept.length < count)
    (k : Nat) : KeepsLeast count (kept ++ [k]) (seen ++ [k]) := by
  obtain ⟨rest, split, counted, -⟩ := keeps
  have lengths : kept.length + rest.length = seen.length := by simpa using split.length_eq
  obtain rfl : rest = [] := List.length_eq_zero.mp (by omega)
  refine ⟨[], by simpa using split.append_right [k], ?_, by simp⟩
  simp only [List.length_append, List.length_singleton]
  omega

/-- A key added to a full choice, followed by the removal of a greatest key,
leaves a choice of the `count` least keys. The removed key is the least of the
keys left out: no kept key exceeds it, and it is either the new key or a kept
one, which no key left out undercuts. -/
theorem KeepsLeast.exchange {kept' : List Nat} {k t : Nat} (keeps : KeepsLeast count kept seen)
    (full : count ≤ kept.length) (moved : (kept ++ [k]).Perm (t :: kept'))
    (greatest : ∀ x ∈ kept ++ [k], x ≤ t) : KeepsLeast count kept' (seen ++ [k]) := by
  obtain ⟨rest, split, counted, ordered⟩ := keeps
  have sameLength : kept.length + 1 = kept'.length + 1 := by simpa using moved.length_eq
  refine ⟨t :: rest, ?_, ?_, fun a inKept b dropped => ?_⟩
  · have swapped : (kept ++ [k] ++ rest).Perm (kept ++ rest ++ [k]) := by
      simpa only [List.append_assoc] using (@List.perm_append_comm _ [k] rest).append_left kept
    exact List.perm_middle.trans
      ((moved.symm.append_right rest).trans (swapped.trans (split.append_right _)))
  · simp only [List.length_append, List.length_singleton]
    omega
  · have wasAdded := moved.symm.subset (List.mem_cons_of_mem t inKept)
    rcases List.mem_cons.mp dropped with rfl | later
    · exact greatest a wasAdded
    · by_cases old : a ∈ kept
      · exact ordered a old b later
      · have fresh : a = k := by simpa [old] using wasAdded
        have topOld : t ∈ kept := by
          by_contra notOld
          obtain rfl : t = k := by simpa [notOld] using moved.symm.subset (List.mem_cons_self _ _)
          exact old (((List.perm_append_singleton _ _).symm.trans moved).cons_inv.symm.subset inKept)
        rw [fresh]
        exact Nat.le_trans (greatest k (List.mem_append_right _ (List.mem_singleton_self _)))
          (ordered t topOld b later)

end Choice

section Queue

variable {α : Type} (rule : TopRule) (key : α → Nat)

/-- The position of the entry `top` returns. -/
def topIndex (queue : PriorityQueue α) : Nat := rule.pick queue.history (queue.entries.map key)

/-- `priq.top()`: `none` stands for reading the top of an empty queue. -/
def top (queue : PriorityQueue α) : Option α := queue.entries[topIndex rule key queue]?

/-- `priq.pop()`. -/
def pop (queue : PriorityQueue α) : PriorityQueue α :=
  ⟨queue.entries.eraseIdx (topIndex rule key queue), queue.history ++ [.pop]⟩

/-- `priq.emplace(entry)`. -/
def emplace (queue : PriorityQueue α) (entry : α) : PriorityQueue α :=
  ⟨queue.entries ++ [entry], queue.history ++ [.push (key entry)]⟩

/-- `priq.emplace(entry); if (priq.size() > numWalkers) priq.pop();` -/
def boundedPush (numWalkers : Nat) (queue : PriorityQueue α) (entry : α) : PriorityQueue α :=
  if numWalkers < (emplace key queue entry).entries.length then pop rule key (emplace key queue entry)
  else emplace key queue entry

/-- `while (priq.size() > 0) { paths.emplace_back(priq.top()); priq.pop(); }`,
with the queue's size as fuel: the entries read, and the queue left. -/
def drain : Nat → PriorityQueue α → List α × PriorityQueue α
  | 0, queue => ([], queue)
  | fuel + 1, queue =>
    match top rule key queue with
    | some entry =>
      let drained := drain fuel (pop rule key queue)
      (entry :: drained.1, drained.2)
    | none => ([], queue)

/-- `while (priq.size() > 1) priq.pop();`, with the queue's size as fuel. -/
def popToOne : Nat → PriorityQueue α → PriorityQueue α
  | 0, queue => queue
  | fuel + 1, queue =>
    if 1 < queue.entries.length then popToOne fuel (pop rule key queue) else queue

/-- The `count` least keys of the entries, in ascending order: what the bounded
queue is meant to keep. -/
def leastKeys (count : Nat) (entries : List α) : List Nat :=
  ((entries.map key).insertionSort (· ≤ ·)).take count

/-- `emplace` appends the entry. -/
@[simp] theorem entries_emplace (queue : PriorityQueue α) (entry : α) :
    (emplace key queue entry).entries = queue.entries ++ [entry] := rfl

variable {queue : PriorityQueue α}

/-- The rule's position lies inside a non-empty queue. -/
theorem topIndex_lt (nonempty : queue.entries ≠ []) :
    topIndex rule key queue < queue.entries.length := by
  have := rule.pick_lt queue.history (queue.entries.map key) (by simpa using nonempty)
  rwa [List.length_map] at this

/-- A non-empty queue's top is the entry at the rule's position. -/
theorem top_eq_some (nonempty : queue.entries ≠ []) :
    top rule key queue =
      some (queue.entries.get ⟨topIndex rule key queue, topIndex_lt rule key nonempty⟩) :=
  List.getElem?_eq_getElem _

/-- The top of a queue of one entry is that entry, whatever its history. -/
theorem top_of_singleton {entry : α} (single : queue.entries = [entry]) :
    top rule key queue = some entry := by
  have inside : topIndex rule key queue < queue.entries.length :=
    topIndex_lt rule key (by simp [single])
  rw [single, List.length_singleton, Nat.lt_one_iff] at inside
  simp [top, inside, single]

/-- Reading the top fails exactly on an empty queue. -/
theorem top_eq_none_iff : top rule key queue = none ↔ queue.entries = [] := by
  constructor
  · intro none_found
    by_contra nonempty
    rw [top_eq_some rule key nonempty] at none_found
    cases none_found
  · intro empty
    simp [top, empty]

/-- The top is an entry of the queue. -/
theorem mem_of_top {entry : α} (found : top rule key queue = some entry) :
    entry ∈ queue.entries :=
  List.getElem?_mem found

/-- The top entry has the greatest cost. -/
theorem key_le_top (nonempty : queue.entries ≠ []) {entry : α} (member : entry ∈ queue.entries) :
    key entry ≤
      key (queue.entries.get ⟨topIndex rule key queue, topIndex_lt rule key nonempty⟩) := by
  have := rule.pick_greatest queue.history (queue.entries.map key) (by simpa using nonempty)
    (key entry) (List.mem_map_of_mem key member)
  simpa [List.getElem_map] using this

/-- `pop` removes exactly the top entry. -/
theorem perm_top_pop (nonempty : queue.entries ≠ []) :
    queue.entries.Perm (queue.entries.get ⟨topIndex rule key queue,
      topIndex_lt rule key nonempty⟩ :: (pop rule key queue).entries) :=
  perm_cons_eraseIdx queue.entries _ (topIndex_lt rule key nonempty)

/-- `pop` removes one entry from a non-empty queue. -/
theorem length_pop (nonempty : queue.entries ≠ []) :
    (pop rule key queue).entries.length + 1 = queue.entries.length :=
  (perm_top_pop rule key nonempty).length_eq.symm

/-- `pop` adds no entry. -/
theorem mem_of_mem_pop {entry : α} (member : entry ∈ (pop rule key queue).entries) :
    entry ∈ queue.entries :=
  List.mem_of_mem_eraseIdx member

/-- Popping a queue of two or more keeps, for every entry, one at most as costly. -/
theorem pop_keeps_cheaper (several : 1 < queue.entries.length) {entry : α}
    (member : entry ∈ queue.entries) : ∃ kept ∈ (pop rule key queue).entries, key kept ≤ key entry := by
  have nonempty : queue.entries ≠ [] := List.ne_nil_of_length_pos (Nat.lt_of_succ_lt several)
  rcases List.mem_cons.mp ((perm_top_pop rule key nonempty).subset member) with same | stays
  · have popped := length_pop rule key nonempty
    obtain ⟨kept, rest, listed⟩ := List.exists_cons_of_ne_nil
      (List.ne_nil_of_length_pos (by omega) : (pop rule key queue).entries ≠ [])
    have keptIn : kept ∈ (pop rule key queue).entries := listed ▸ List.mem_cons_self _ _
    exact ⟨kept, keptIn, same ▸ key_le_top rule key nonempty (mem_of_mem_pop rule key keptIn)⟩
  · exact ⟨entry, stays, Nat.le_refl _⟩

variable {numWalkers : Nat}

/-- A push into a queue within its bound leaves it within its bound, one longer
unless it was full. -/
theorem length_boundedPush (bounded : queue.entries.length ≤ numWalkers) (entry : α) :
    (boundedPush rule key numWalkers queue entry).entries.length =
      min numWalkers (queue.entries.length + 1) := by
  unfold boundedPush
  split
  · next over =>
    have : (pop rule key (emplace key queue entry)).entries.length + 1 =
        (emplace key queue entry).entries.length := length_pop rule key (by simp)
    simp only [entries_emplace, List.length_append, List.length_singleton] at this over
    omega
  · next within =>
    simp only [entries_emplace, List.length_append, List.length_singleton] at within ⊢
    omega

/-- Below the bound, a push only appends. -/
theorem boundedPush_of_lt (room : queue.entries.length < numWalkers) (entry : α) :
    boundedPush rule key numWalkers queue entry = emplace key queue entry := by
  unfold boundedPush
  rw [if_neg (by simp only [entries_emplace, List.length_append, List.length_singleton]; omega)]

/-- A push keeps no entry that was neither queued nor pushed. -/
theorem boundedPush_subperm (entry : α) :
    (boundedPush rule key numWalkers queue entry).entries.Subperm (queue.entries ++ [entry]) := by
  unfold boundedPush
  split
  · exact (List.eraseIdx_sublist _ _).subperm
  · exact List.Subperm.refl _

/-- A series of pushes keeps only entries that were queued or pushed, each at most once. -/
theorem pushAll_subperm (entries : List α) :
    (entries.foldl (boundedPush rule key numWalkers) queue).entries.Subperm
      (queue.entries ++ entries) := by
  induction entries generalizing queue with
  | nil => simpa using List.Subperm.refl queue.entries
  | cons entry rest inductionHypothesis =>
    rw [List.foldl_cons, ← List.singleton_append, ← List.append_assoc]
    exact inductionHypothesis.trans ((List.subperm_append_right rest).mpr
      (boundedPush_subperm rule key entry))

/-- Every entry left after a series of pushes was in the queue or pushed. -/
theorem mem_pushAll {entries : List α} {x : α}
    (member : x ∈ (entries.foldl (boundedPush rule key numWalkers) queue).entries) :
    x ∈ queue.entries ∨ x ∈ entries :=
  List.mem_append.mp ((pushAll_subperm rule key entries).subset member)

/-- A series of pushes leaves the queue as full as the bound allows. -/
theorem length_pushAll (entries : List α) (bounded : queue.entries.length ≤ numWalkers) :
    (entries.foldl (boundedPush rule key numWalkers) queue).entries.length =
      min numWalkers (queue.entries.length + entries.length) := by
  induction entries generalizing queue with
  | nil =>
    rw [List.foldl_nil, List.length_nil, Nat.add_zero]
    omega
  | cons entry rest inductionHypothesis =>
    have pushed := length_boundedPush rule key bounded entry
    rw [List.foldl_cons, inductionHypothesis (by omega), pushed, List.length_cons]
    omega

/-- While the bound is not reached, pushes only append. -/
theorem pushAll_of_le (entries : List α)
    (room : queue.entries.length + entries.length ≤ numWalkers) :
    (entries.foldl (boundedPush rule key numWalkers) queue).entries = queue.entries ++ entries := by
  induction entries generalizing queue with
  | nil => simp
  | cons entry rest inductionHypothesis =>
    rw [List.foldl_cons, boundedPush_of_lt rule key (by simp at room; omega),
      inductionHypothesis (by simp at room ⊢; omega)]
    simp

/-- Draining a queue yields its entries, top first, and leaves it empty. -/
theorem drain_perm : ∀ (fuel : Nat) (queue : PriorityQueue α), queue.entries.length = fuel →
    (drain rule key fuel queue).1.Perm queue.entries ∧ (drain rule key fuel queue).2.entries = []
  | 0, queue, empty => by
    rw [List.length_eq_zero.mp empty]
    exact ⟨List.Perm.refl _, List.length_eq_zero.mp empty⟩
  | fuel + 1, queue, counted => by
    have nonempty : queue.entries ≠ [] := List.ne_nil_of_length_pos (by omega)
    obtain ⟨drained, emptied⟩ := drain_perm fuel (pop rule key queue)
      (by have := length_pop rule key nonempty; omega)
    simp only [drain, top_eq_some rule key nonempty]
    exact ⟨(drained.cons _).trans (perm_top_pop rule key nonempty).symm, emptied⟩

/-- Draining reads only entries of the queue. -/
theorem mem_of_mem_drain : ∀ {fuel : Nat} {queue : PriorityQueue α} {entry : α},
    entry ∈ (drain rule key fuel queue).1 → entry ∈ queue.entries
  | 0, _, _, member => nomatch member
  | _ + 1, queue, _, member => by
    rw [drain] at member
    split at member
    · next found =>
      rcases List.mem_cons.mp member with rfl | later
      · exact mem_of_top rule key found
      · exact mem_of_mem_pop rule key (mem_of_mem_drain later)
    · nomatch member

/-- Popping a non-empty queue down to one entry leaves one of least cost. -/
theorem popToOne_least : ∀ (fuel : Nat) (queue : PriorityQueue α), queue.entries ≠ [] →
    queue.entries.length ≤ fuel + 1 →
    ∃ best, (popToOne rule key fuel queue).entries = [best] ∧ best ∈ queue.entries ∧
      ∀ x ∈ queue.entries, key best ≤ key x
  | 0, queue, nonempty, short => by
    obtain ⟨best, rest, listed⟩ := List.exists_cons_of_ne_nil nonempty
    have counted := congrArg List.length listed
    rw [List.length_cons] at counted
    have : rest = [] := List.length_eq_zero.mp (by omega)
    subst this
    exact ⟨best, listed, by simp [listed], fun x member => by simp_all⟩
  | fuel + 1, queue, nonempty, short => by
    by_cases several : 1 < queue.entries.length
    · have popped := length_pop rule key nonempty
      obtain ⟨best, single, member, least⟩ := popToOne_least fuel (pop rule key queue)
        (List.ne_nil_of_length_pos (by omega)) (by omega)
      refine ⟨best, by rw [popToOne, if_pos several, single], mem_of_mem_pop rule key member,
        fun x inQueue => ?_⟩
      obtain ⟨kept, keptIn, cheaper⟩ := pop_keeps_cheaper rule key several inQueue
      exact Nat.le_trans (least kept keptIn) cheaper
    · rw [popToOne, if_neg several]
      exact popToOne_least 0 queue nonempty (by omega)

/-- Popping down to one entry adds no entry. -/
theorem mem_of_mem_popToOne : ∀ {fuel : Nat} {queue : PriorityQueue α} {entry : α},
    entry ∈ (popToOne rule key fuel queue).entries → entry ∈ queue.entries
  | 0, _, _, member => member
  | _ + 1, queue, _, member => by
    rw [popToOne] at member
    split at member
    · exact mem_of_mem_pop rule key (mem_of_mem_popToOne member)
    · exact member

/-- Popping down to one entry and then popping it empties the queue. -/
theorem pop_popToOne (fuel : Nat) (short : queue.entries.length ≤ fuel + 1) :
    (pop rule key (popToOne rule key fuel queue)).entries = [] := by
  by_cases empty : queue.entries = []
  · have kept : popToOne rule key fuel queue = queue := by
      cases fuel <;> simp [popToOne, empty]
    simp [kept, pop, empty]
  · obtain ⟨best, single, -⟩ := popToOne_least rule key fuel queue empty short
    have : (pop rule key (popToOne rule key fuel queue)).entries.length + 1 =
        (popToOne rule key fuel queue).entries.length := length_pop rule key (by simp [single])
    rw [single, List.length_singleton] at this
    exact List.length_eq_zero.mp (by omega)

/-- Draining an empty queue reads nothing and leaves the queue as it is. -/
theorem drain_of_entries_nil (empty : queue.entries = []) :
    drain rule key queue.entries.length queue = ([], queue) := by
  rw [empty, List.length_nil]
  rfl

/-- An empty queue popped down to one entry still has no top to read. -/
theorem top_popToOne_of_entries_nil (empty : queue.entries = []) :
    top rule key (popToOne rule key queue.entries.length queue) = none := by
  rw [empty, List.length_nil]
  exact (top_eq_none_iff rule key).mpr empty

/-- One bounded push keeps the `numWalkers` least keys of everything pushed,
whichever entry of greatest cost the rule pops. -/
theorem KeepsLeast.push {seen : List Nat}
    (keeps : KeepsLeast numWalkers (queue.entries.map key) seen) (entry : α) :
    KeepsLeast numWalkers ((boundedPush rule key numWalkers queue entry).entries.map key)
      (seen ++ [key entry]) := by
  unfold boundedPush
  split
  · next over =>
    have nonempty : (emplace key queue entry).entries ≠ [] := by simp
    obtain ⟨top, greatest, moved⟩ : ∃ top, (∀ y ∈ queue.entries ++ [entry], key y ≤ key top) ∧
        (queue.entries ++ [entry]).Perm (top :: (pop rule key (emplace key queue entry)).entries) :=
      ⟨_, fun y member => key_le_top rule key nonempty member, perm_top_pop rule key nonempty⟩
    have keysMoved : (queue.entries.map key ++ [key entry]).Perm
        (key top :: (pop rule key (emplace key queue entry)).entries.map key) := by
      simpa using moved.map key
    refine keeps.exchange
      (by simp only [entries_emplace, List.length_append, List.length_singleton, List.length_map]
            at over ⊢; omega)
      keysMoved fun x member => ?_
    rw [← List.map_singleton key entry, ← List.map_append] at member
    obtain ⟨y, pushed, rfl⟩ := List.mem_map.mp member
    exact greatest y pushed
  · next within =>
    simpa using keeps.append
      (by simp only [entries_emplace, List.length_append, List.length_singleton, List.length_map]
            at within ⊢; omega)
      (key entry)

/-- A run of bounded pushes keeps the `numWalkers` least keys of everything
queued or pushed. -/
theorem keepsLeast_pushAll {seen : List Nat} (entries : List α)
    (keeps : KeepsLeast numWalkers (queue.entries.map key) seen) :
    KeepsLeast numWalkers ((entries.foldl (boundedPush rule key numWalkers) queue).entries.map key)
      (seen ++ entries.map key) := by
  induction entries generalizing queue seen with
  | nil => simpa using keeps
  | cons entry rest inductionHypothesis =>
    rw [List.foldl_cons, List.map_cons, ← List.singleton_append, ← List.append_assoc]
    exact inductionHypothesis (keeps.push rule key entry)

/-- The bounded queue keeps the cheapest entries: after every sequence of pushes
into an empty queue, whatever its history, its costs are, as a multiset, the
`min numWalkers m` least costs of the `m` entries pushed, for every bound and
every choice among equal costs. Drained, it gives a beam of pushed entries with
those costs; with room for one entry, popping it down to one leaves an entry of
least cost among all the pushed ones. -/
theorem bounded_queue_keeps_cheapest (numWalkers : Nat) (history : List QueueEvent)
    (entries : List α) (priq : PriorityQueue α)
    (pushed : entries.foldl (boundedPush rule key numWalkers) ⟨[], history⟩ = priq) :
    (priq.entries.map key).Perm (leastKeys key (min numWalkers entries.length) entries) ∧
      (drain rule key priq.entries.length priq).1.Subperm entries ∧
      ((drain rule key priq.entries.length priq).1.map key).Perm
        (leastKeys key (min numWalkers entries.length) entries) ∧
      (1 ≤ numWalkers → entries ≠ [] → ∃ best,
        (popToOne rule key priq.entries.length priq).entries = [best] ∧
        best ∈ entries ∧ ∀ entry ∈ entries, key best ≤ key entry) := by
  have start : KeepsLeast numWalkers ((⟨[], history⟩ : PriorityQueue α).entries.map key) [] :=
    keepsLeast_nil numWalkers
  obtain ⟨rest, split, counted, ordered⟩ :
      KeepsLeast numWalkers (priq.entries.map key) (entries.map key) := by
    simpa [pushed] using keepsLeast_pushAll rule key entries start
  have least : (priq.entries.map key).Perm (leastKeys key (min numWalkers entries.length) entries) :=
    KeepsLeast.perm_take_insertionSort ⟨rest, split, by simp only [List.length_map] at counted ⊢; omega,
      ordered⟩
  have drained := (drain_perm rule key priq.entries.length priq rfl).1
  have fromEntries : (entries.foldl (boundedPush rule key numWalkers) ⟨[], history⟩).entries.Subperm
      ((⟨[], history⟩ : PriorityQueue α).entries ++ entries) := pushAll_subperm rule key entries
  rw [pushed, List.nil_append] at fromEntries
  refine ⟨least, drained.subperm.trans fromEntries,
    (drained.map key).trans least, fun walkers nonemptyEntries => ?_⟩
  have nonempty : priq.entries ≠ [] := List.ne_nil_of_length_pos (by
    rw [← pushed, length_pushAll rule key entries (Nat.zero_le _), List.length_nil, Nat.zero_add]
    exact Nat.lt_min.mpr ⟨walkers, List.length_pos.mpr nonemptyEntries⟩)
  obtain ⟨best, single, member, cheapest⟩ :=
    popToOne_least rule key priq.entries.length priq nonempty (Nat.le_succ _)
  refine ⟨best, single, (mem_pushAll rule key (pushed ▸ member)).resolve_left (List.not_mem_nil _),
    fun entry listed => ?_⟩
  rcases List.mem_append.mp (split.symm.subset (List.mem_map_of_mem key listed)) with queued | dropped
  · obtain ⟨kept, keptIn, same⟩ := List.mem_map.mp queued
    exact same ▸ cheapest kept keptIn
  · exact ordered _ (List.mem_map_of_mem key member) _ dropped

/-- Two walkers over the costs 5, 3, 8, 1 keep 3 and 1, and popping the queue
down to one leaves the cheapest. -/
theorem fourCosts_pop_to_cheapest :
    ([5, 3, 8, 1].foldl (boundedPush TopRule.firstGreatest id 2) ⟨[], []⟩).entries = [3, 1] ∧
      1 ≤ 2 ∧ [5, 3, 8, 1] ≠ [] ∧ ∃ best,
        (popToOne TopRule.firstGreatest id 2
          ([5, 3, 8, 1].foldl (boundedPush TopRule.firstGreatest id 2) ⟨[], []⟩)).entries = [best] ∧
        best ∈ [5, 3, 8, 1] ∧ ∀ entry ∈ [5, 3, 8, 1], id best ≤ id entry :=
  ⟨by decide, by decide, by decide,
    (bounded_queue_keeps_cheapest TopRule.firstGreatest id 2 [] [5, 3, 8, 1] _ rfl).2.2.2
      (by decide) (by decide)⟩

end Queue

section BinaryHeap

/-! libstdc++ keeps a `std::priority_queue` in a vector ordered as a binary heap
by `std::push_heap` and `std::pop_heap` (`bits/stl_heap.h`), and reads the top
in the first slot. Replaying a queue's history through those two calls, each
entry known by the number of its push, gives the entry libstdc++ reads as the
top. -/

/-- A heap slot: the number of the push that queued the entry, and its cost. -/
abbrev HeapSlot := Nat × Nat

/-- `std::__push_heap`: the hole moves up past every parent of lower cost, then
takes the value. The parent of slot `h` is `(h - 1) / 2`; the fuel is the
hole's index, which bounds the steps. -/
def pushHeapHole : Nat → List HeapSlot → Nat → HeapSlot → List HeapSlot
  | 0, heap, hole, value => heap.set hole value
  | fuel + 1, heap, hole, value =>
    let parent := (hole - 1) / 2
    if 0 < hole ∧ (heap.getD parent (0, 0)).2 < value.2 then
      pushHeapHole fuel (heap.set hole (heap.getD parent (0, 0))) parent value
    else heap.set hole value

/-- The descent of `std::__adjust_heap` over the first `length` slots: while
the hole has two children, the costlier child moves up into it, the right one
on a tie. -/
def adjustHeapHole : Nat → List HeapSlot → Nat → Nat → List HeapSlot × Nat
  | 0, heap, hole, _ => (heap, hole)
  | fuel + 1, heap, hole, length =>
    if hole < (length - 1) / 2 then
      let right := 2 * (hole + 1)
      let child :=
        if (heap.getD right (0, 0)).2 < (heap.getD (right - 1) (0, 0)).2 then right - 1 else right
      adjustHeapHole fuel (heap.set hole (heap.getD child (0, 0))) child length
    else (heap, hole)

/-- `c.push_back(entry); std::push_heap(c.begin(), c.end(), comp);` -/
def pushHeap (heap : List HeapSlot) (slot : HeapSlot) : List HeapSlot :=
  pushHeapHole heap.length (heap ++ [slot]) heap.length slot

/-- `std::pop_heap(c.begin(), c.end(), comp); c.pop_back();`: the last slot's
value refills the hole the top leaves, through `std::__adjust_heap`. -/
def popHeap (heap : List HeapSlot) : List HeapSlot :=
  match heap.getLast? with
  | none => []
  | some value =>
    let length := heap.length - 1
    if length = 0 then []
    else
      let descended := adjustHeapHole length (heap.take length) 0 length
      let filled :=
        if length % 2 = 0 ∧ descended.2 = (length - 2) / 2 then
          (descended.1.set descended.2 (descended.1.getD (2 * (descended.2 + 1) - 1) (0, 0)),
            2 * (descended.2 + 1) - 1)
        else descended
      pushHeapHole filled.2 filled.1 filled.2 value

/-- The heap a history of pushes and pops builds from an empty queue, and the
number of pushes made. -/
def replayHeap (history : List QueueEvent) : List HeapSlot × Nat :=
  history.foldl (fun built event =>
    match event with
    | .push cost => (pushHeap built.1 (built.2, cost), built.2 + 1)
    | .pop => (popHeap built.1, built.2)) ([], 0)

/-- The position, among the live entries oldest first, of the entry in the
heap's first slot: the number of live entries pushed before it. -/
def heapTopPosition (history : List QueueEvent) : Nat :=
  match (replayHeap history).1.head? with
  | some (number, _) => ((replayHeap history).1.filter (·.1 < number)).length
  | none => 0

/-- A candidate position when it holds a greatest cost, the first greatest
otherwise. -/
def greatestOr (costs : List Nat) (candidate : Nat) : Nat :=
  if candidate < costs.length ∧ costs.all (· ≤ costs.getD candidate 0) then candidate
  else firstGreatest costs

/-- `greatestOr` picks a position of greatest cost in a non-empty list. -/
theorem greatestOr_spec (costs : List Nat) (candidate : Nat) (nonempty : costs ≠ []) :
    ∃ inside : greatestOr costs candidate < costs.length,
      ∀ cost ∈ costs, cost ≤ costs.get ⟨greatestOr costs candidate, inside⟩ := by
  unfold greatestOr
  split
  · next valid =>
    refine ⟨valid.1, fun cost member => ?_⟩
    have := List.all_eq_true.mp valid.2 cost member
    simpa [List.getElem?_eq_getElem valid.1] using this
  · obtain ⟨inside, found⟩ := firstGreatest_spec costs nonempty
    exact ⟨inside, fun cost member => found ▸ le_greatest member⟩

/-- libstdc++'s choice of top, replayed from the queue's history, where it
holds a greatest cost; the first greatest where it does not. -/
def TopRule.binaryHeap : TopRule where
  pick history costs := greatestOr costs (heapTopPosition history)
  pick_lt _ costs nonempty := (greatestOr_spec costs _ nonempty).1
  pick_greatest _ costs nonempty := (greatestOr_spec costs _ nonempty).2

/-- The same entries under different histories: pushing `z` (cost 1), `b` and
`c` (cost 5) leaves `b` on top; pushing them and then `d` (cost 9) into a queue
bounded to three entries, which pops `d` again, leaves `c` on top. -/
example :
    ([('z', 1), ('b', 5), ('c', 5)].foldl (boundedPush TopRule.binaryHeap Prod.snd 3)
        ⟨[], []⟩).entries =
      ([('z', 1), ('b', 5), ('c', 5), ('d', 9)].foldl (boundedPush TopRule.binaryHeap Prod.snd 3)
        ⟨[], []⟩).entries ∧
    top TopRule.binaryHeap Prod.snd ([('z', 1), ('b', 5), ('c', 5)].foldl
      (boundedPush TopRule.binaryHeap Prod.snd 3) ⟨[], []⟩) = some ('b', 5) ∧
    top TopRule.binaryHeap Prod.snd ([('z', 1), ('b', 5), ('c', 5), ('d', 9)].foldl
      (boundedPush TopRule.binaryHeap Prod.snd 3) ⟨[], []⟩) = some ('c', 5) := by
  decide

end BinaryHeap

end Exatn.Numerics
