import Mathlib.Data.String.Basic
import Mathlib.Data.List.Basic

/-!
# Subspaces and their uniform split

A subspace is a closed range `[lowerBound, upperBound]` of basis offsets of a
vector space, with 64-bit unsigned offsets and extents. Its constructor asserts
`lowerBound ≤ upperBound < dimension`; here the assertion is a field, and the
checked constructor `Subspace.make` fails where the assertion would abort.

`splitUniform` cuts a subspace into `numSegments` consecutive segments. With
`d` the extent, `q = d / numSegments` and `r = d % numSegments`, segment `i`
has extent `q + 1` for `i < r` and `q` otherwise, so it starts at
`lowerBound + i * q + min i r`. Every 64-bit sum in the loop stays below the
upper bound plus one, which is below `2 ^ 64`, so none wraps. When there are
more segments than basis vectors the result is a vector of null pointers.
Registered ids are not read by the split and are not modelled.

The result vector is allocated before the split, with `numSegments` null
pointers. libstdc++ throws `std::length_error` for a count beyond the vector's
`max_size()`, `2 ^ 59 - 1` for `std::shared_ptr` elements on a 64-bit target,
so a count that large fails even when the subspace has that many basis vectors.
Running out of memory below that count (`std::bad_alloc`) is not modelled.
-/

namespace Exatn.Numerics

/-- A vector space as subspaces read it: its dimension. -/
structure VectorSpace where
  dimension : UInt64

/-- A subspace of a vector space; `bounded` is the constructor's assertion. -/
structure Subspace where
  vectorSpace : VectorSpace
  lowerBound : UInt64
  upperBound : UInt64
  name : String
  bounded : lowerBound ≤ upperBound ∧ upperBound < vectorSpace.dimension

/-- How `splitUniform` fails: an assertion aborts, or the result vector's
constructor throws `std::length_error`. -/
inductive SplitFailure
  | assertion
  | lengthError
  deriving DecidableEq, Repr

/-- The most elements a `std::vector` of `std::shared_ptr` may hold in libstdc++
on a 64-bit target: `PTRDIFF_MAX / sizeof (std::shared_ptr)`, that is
`(2 ^ 63 - 1) / 16 = 2 ^ 59 - 1`. -/
def vectorMaxSize : Nat := 576460752303423487

namespace Subspace

/-- The checked constructor: `none` where the constructor's assertion fails. -/
def make (vectorSpace : VectorSpace) (lowerBound upperBound : UInt64) (name : String) :
    Option Subspace :=
  if bounded : lowerBound ≤ upperBound ∧ upperBound < vectorSpace.dimension then
    some ⟨vectorSpace, lowerBound, upperBound, name, bounded⟩
  else none

/-- The number of basis vectors in the subspace. -/
def getDimension (s : Subspace) : UInt64 := s.upperBound - s.lowerBound + 1

/-- The segment loop of `splitUniform` from segment `i` starting at `lower`,
for `remaining` more segments: the segments made and the final `lower`. -/
def splitLoop (vectorSpace : VectorSpace) (name : String) (segmentLength excess : UInt64) :
    UInt64 → UInt64 → Nat → Option (List Subspace × UInt64)
  | _, lower, 0 => some ([], lower)
  | i, lower, remaining + 1 =>
    let upper := lower + segmentLength - 1
    let upper := if i < excess then upper + 1 else upper
    match make vectorSpace lower upper (name ++ toString i) with
    | none => none
    | some segment =>
      (splitLoop vectorSpace name segmentLength excess (i + 1) (upper + 1) remaining).map
        fun (segments, last) => (segment :: segments, last)

/-- Splits the subspace into `numSegments` consecutive segments of nearly equal
extent, or returns null pointers when there are more segments than basis
vectors. The result vector is allocated first, so a count beyond its
`max_size()` throws before any segment is made. -/
def splitUniform (s : Subspace) (numSegments : UInt64) :
    Except SplitFailure (List (Option Subspace)) :=
  if numSegments = 0 then .error .assertion
  else if vectorMaxSize < numSegments.toNat then .error .lengthError
  else
    let subspaceExtent := s.getDimension
    let subspaceName := "_" ++ s.name ++ "_"
    if numSegments ≤ subspaceExtent then
      let segmentLength := subspaceExtent / numSegments
      let excess := subspaceExtent - numSegments * segmentLength
      match splitLoop s.vectorSpace subspaceName segmentLength excess 0 s.lowerBound
          numSegments.toNat with
      | none => .error .assertion
      | some (segments, lower) =>
        if lower = s.upperBound + 1 then .ok (segments.map some) else .error .assertion
    else .ok (List.replicate numSegments.toNat none)

/-- The first offset of segment `i` when the extent has quotient `q` and
remainder `r` by the number of segments. -/
def segmentStart (lowerBound q r i : Nat) : Nat := lowerBound + i * q + min i r

/-- Segment `i + 1` starts `q` offsets after segment `i`, plus one while `i` is below the remainder. -/
theorem segmentStart_succ (lowerBound q r i : Nat) :
    segmentStart lowerBound q r (i + 1) =
      segmentStart lowerBound q r i + q + if i < r then 1 else 0 := by
  simp only [segmentStart, Nat.succ_mul]
  split <;> omega

/-- The `k` segments of extents `d / k` and `d % k` one longer cover exactly
`d` offsets. -/
theorem segmentStart_last (lowerBound d k : Nat) (positive : 0 < k) :
    segmentStart lowerBound (d / k) (d % k) k = lowerBound + d := by
  have := Nat.div_add_mod d k
  rw [segmentStart, Nat.min_eq_right (Nat.mod_lt d positive).le]
  omega

/-- Later segments start no earlier. -/
theorem segmentStart_mono (lowerBound q r : Nat) {i j : Nat} (earlier : i ≤ j) :
    segmentStart lowerBound q r i ≤ segmentStart lowerBound q r j := by
  have := Nat.mul_le_mul_right q earlier
  simp only [segmentStart]
  omega

/-- A 64-bit sum whose exact value fits does not wrap. -/
theorem toNat_add_of_lt {a b : UInt64} (fits : a.toNat + b.toNat < 2 ^ 64) :
    (a + b).toNat = a.toNat + b.toNat := by
  rw [UInt64.toNat_add]
  exact Nat.mod_eq_of_lt fits

/-- `UInt64.toNat_sub_of_le` with its hypothesis on the `Nat` values, as `omega` gives it. -/
theorem toNat_sub_of_le {a b : UInt64} (below : b.toNat ≤ a.toNat) :
    (a - b).toNat = a.toNat - b.toNat :=
  UInt64.toNat_sub_of_le a b below

/-- The 64-bit one is the natural one. -/
@[simp] theorem toNat_one : (1 : UInt64).toNat = 1 := rfl

/-- 64-bit order is the order of the `Nat` values. -/
theorem lt_iff_toNat_lt {a b : UInt64} : a < b ↔ a.toNat < b.toNat := Iff.rfl

/-- 64-bit order is the order of the `Nat` values. -/
theorem le_iff_toNat_le {a b : UInt64} : a ≤ b ↔ a.toNat ≤ b.toNat := Iff.rfl

/-- A mapped range of `n + 1` starts with the value at 0, then the range shifted by one. -/
theorem map_range_succ {α : Type} (f : Nat → α) (n : Nat) :
    (List.range (n + 1)).map f = f 0 :: (List.range n).map (fun j => f (j + 1)) := by
  simp [List.range_succ_eq_map, Function.comp_def]

/-- The extent of a subspace is `upperBound - lowerBound + 1`, without wrap. -/
theorem getDimension_toNat (s : Subspace) :
    s.getDimension.toNat = s.upperBound.toNat - s.lowerBound.toNat + 1 := by
  obtain ⟨ordered, inside⟩ := s.bounded
  rw [le_iff_toNat_le] at ordered
  rw [lt_iff_toNat_lt] at inside
  have := UInt64.toNat_lt s.vectorSpace.dimension
  have difference := toNat_sub_of_le ordered
  rw [getDimension, toNat_add_of_lt (by rw [difference, toNat_one]; omega), difference, toNat_one]

/-- The segment loop from segment `i` at the start of segment `i` makes the
remaining segments with their closed-form bounds and names, in the given vector
space, and ends at the start of segment `k`. -/
theorem splitLoop_spec (vectorSpace : VectorSpace) (name : String)
    (segmentLength excess : UInt64) (lowerBound k : Nat) (positive : 1 ≤ segmentLength.toNat)
    (fewer : excess.toNat < k)
    (fits : segmentStart lowerBound segmentLength.toNat excess.toNat k ≤
      vectorSpace.dimension.toNat) :
    ∀ (remaining : Nat) (i lower : UInt64), i.toNat + remaining = k →
      lower.toNat = segmentStart lowerBound segmentLength.toNat excess.toNat i.toNat →
      ∃ segments last, splitLoop vectorSpace name segmentLength excess i lower remaining =
          some (segments, last) ∧
        last.toNat = segmentStart lowerBound segmentLength.toNat excess.toNat k ∧
        segments.map (fun segment => (segment.lowerBound.toNat, segment.upperBound.toNat)) =
          (List.range remaining).map (fun j =>
            (segmentStart lowerBound segmentLength.toNat excess.toNat (i.toNat + j),
              segmentStart lowerBound segmentLength.toNat excess.toNat (i.toNat + j + 1) - 1)) ∧
        segments.map (·.name) = (List.range remaining).map (fun j => name ++ toString (i.toNat + j)) ∧
        ∀ segment ∈ segments, segment.vectorSpace = vectorSpace := by
  have dimension := UInt64.toNat_lt vectorSpace.dimension
  have spread : k ≤ segmentStart lowerBound segmentLength.toNat excess.toNat k := by
    have := Nat.le_mul_of_pos_right k positive
    simp only [segmentStart]
    omega
  intro remaining
  induction remaining with
  | zero =>
    intro i lower counted started
    exact ⟨[], lower, rfl, by simpa [← counted] using started, rfl, rfl, by simp⟩
  | succ remaining inductionHypothesis =>
    intro i lower counted started
    have next := segmentStart_succ lowerBound segmentLength.toNat excess.toNat i.toNat
    have within := segmentStart_mono lowerBound segmentLength.toNat excess.toNat
      (show i.toNat + 1 ≤ k by omega)
    have sum : (lower + segmentLength).toNat = lower.toNat + segmentLength.toNat :=
      toNat_add_of_lt (by split at next <;> omega)
    have less : (lower + segmentLength - 1).toNat = lower.toNat + segmentLength.toNat - 1 := by
      rw [toNat_sub_of_le (by rw [sum, toNat_one]; omega), sum, toNat_one]
    -- the upper bound of segment `i`, computed without wrap
    have upperExact : (if i < excess then lower + segmentLength - 1 + 1
        else lower + segmentLength - 1).toNat =
        segmentStart lowerBound segmentLength.toNat excess.toNat (i.toNat + 1) - 1 := by
      split
      · next extra =>
        rw [lt_iff_toNat_lt] at extra
        rw [toNat_add_of_lt (by rw [less, toNat_one]; split at next <;> omega), less, toNat_one]
        simp only [if_pos extra] at next
        omega
      · next plain =>
        rw [lt_iff_toNat_lt] at plain
        simp only [if_neg plain] at next
        omega
    have iNext : (i + 1).toNat = i.toNat + 1 := toNat_add_of_lt (by rw [toNat_one]; omega)
    have lowerNext : ((if i < excess then lower + segmentLength - 1 + 1
        else lower + segmentLength - 1) + 1).toNat =
        segmentStart lowerBound segmentLength.toNat excess.toNat (i.toNat + 1) := by
      rw [toNat_add_of_lt (by rw [upperExact, toNat_one]; omega), upperExact, toNat_one]
      split at next <;> omega
    obtain ⟨segments, last, loop, final, bounds, names, spaces⟩ :=
      inductionHypothesis (i + 1) _ (by omega) (iNext ▸ lowerNext)
    rw [iNext] at bounds names
    have inside : lower ≤ (if i < excess then lower + segmentLength - 1 + 1
        else lower + segmentLength - 1) ∧ (if i < excess then lower + segmentLength - 1 + 1
        else lower + segmentLength - 1) < vectorSpace.dimension := by
      refine ⟨le_iff_toNat_le.mpr ?_, lt_iff_toNat_lt.mpr ?_⟩ <;> rw [upperExact] <;>
        split at next <;> omega
    refine ⟨⟨vectorSpace, lower, _, name ++ toString i, inside⟩ :: segments, last, ?_, final,
      ?_, ?_, ?_⟩
    · simp only [splitLoop, make, dif_pos inside, loop, Option.map_some']
    · rw [map_range_succ, List.map_cons, bounds, started, upperExact]
      congr 1
      refine List.map_congr_left fun j _ => ?_
      rw [show i.toNat + 1 + j = i.toNat + (j + 1) by omega]
    · rw [map_range_succ, List.map_cons, names]
      congr 1
      refine List.map_congr_left fun j _ => ?_
      rw [show i.toNat + 1 + j = i.toNat + (j + 1) by omega]
    · intro member belongs
      rcases List.mem_cons.mp belongs with rfl | later
      · rfl
      · exact spaces member later

/-- An element of a list mapped onto a mapped range is the range's value. -/
theorem map_eq_map_range_getElem {α β : Type} {items : List α} {f : α → β} {g : Nat → β}
    {n : Nat} (same : items.map f = (List.range n).map g) (i : Nat) (inside : i < items.length) :
    f items[i] = g i := by
  have length : items.length = n := by simpa using congrArg List.length same
  have := congrArg (·[i]?) same
  simp only [List.getElem?_map, List.getElem?_eq_getElem inside,
    List.getElem?_range (length ▸ inside), Option.map_some', Option.some.injEq] at this
  exact this

/-- Segments whose bounds are the closed-form starts follow each other without
gap, and segment `i` has `q` basis vectors, plus one while `i` is below `r`. -/
theorem adjacent_extent_of_bounds {segments : List Subspace} {lowerBound q r k : Nat}
    (bounds : segments.map (fun segment => (segment.lowerBound.toNat, segment.upperBound.toNat)) =
      (List.range k).map (fun j =>
        (segmentStart lowerBound q r j, segmentStart lowerBound q r (j + 1) - 1)))
    (positive : 1 ≤ q) :
    (∀ i (following : i + 1 < segments.length),
      segments[i + 1].lowerBound.toNat = segments[i].upperBound.toNat + 1) ∧
    ∀ i (inside : i < segments.length),
      segments[i].upperBound.toNat - segments[i].lowerBound.toNat + 1 =
        q + if i < r then 1 else 0 := by
  have at_ := map_eq_map_range_getElem bounds
  refine ⟨fun i following => ?_, fun i inside => ?_⟩
  · have current := congrArg Prod.snd (at_ i (by omega))
    have later := congrArg Prod.fst (at_ (i + 1) following)
    have step := segmentStart_succ lowerBound q r i
    simp only at current later
    omega
  · have current := Prod.mk.inj (at_ i inside)
    have step := segmentStart_succ lowerBound q r i
    omega

/-- For `0 < k ≤ d`, with `d = upperBound - lowerBound + 1` the number of basis
vectors and `k` within the result vector's `max_size()`, `splitUniform k`
returns `k` non-null segments of the same vector space, each satisfying the
constructor's assertion, that start at the lower bound, end at the upper bound,
follow each other without gap, have `d / k` basis vectors, plus one for the
first `d % k` of them, and are named `_name_i`. All of this is exact
arithmetic, so no 64-bit operation wraps. For `d < k ≤ max_size()` it returns
`k` null pointers, and for `k > max_size()` the vector throws `length_error`. -/
theorem splitUniform_exact (s : Subspace) :
    (∀ numSegments : UInt64, 0 < numSegments →
      numSegments.toNat ≤ s.upperBound.toNat - s.lowerBound.toNat + 1 →
      numSegments.toNat ≤ vectorMaxSize →
      ∃ segments : List Subspace, s.splitUniform numSegments = .ok (segments.map some) ∧
        segments.length = numSegments.toNat ∧
        (∀ segment ∈ segments, segment.vectorSpace = s.vectorSpace ∧
          segment.lowerBound ≤ segment.upperBound ∧
          segment.upperBound < segment.vectorSpace.dimension) ∧
        segments.head?.map (·.lowerBound) = some s.lowerBound ∧
        segments.getLast?.map (·.upperBound) = some s.upperBound ∧
        (∀ i (following : i + 1 < segments.length),
          segments[i + 1].lowerBound.toNat = segments[i].upperBound.toNat + 1) ∧
        (∀ i (inside : i < segments.length),
          segments[i].upperBound.toNat - segments[i].lowerBound.toNat + 1 =
            (s.upperBound.toNat - s.lowerBound.toNat + 1) / numSegments.toNat +
              if i < (s.upperBound.toNat - s.lowerBound.toNat + 1) % numSegments.toNat
              then 1 else 0) ∧
        segments.map (·.name) =
          (List.range numSegments.toNat).map (fun i => "_" ++ s.name ++ "_" ++ toString i)) ∧
    (∀ numSegments : UInt64, s.upperBound.toNat - s.lowerBound.toNat + 1 < numSegments.toNat →
      numSegments.toNat ≤ vectorMaxSize →
      s.splitUniform numSegments = .ok (List.replicate numSegments.toNat none)) ∧
    (∀ numSegments : UInt64, vectorMaxSize < numSegments.toNat →
      s.splitUniform numSegments = .error .lengthError) := by
  rw [← getDimension_toNat s]
  refine ⟨fun numSegments positive fewer small => ?_, fun numSegments more small => ?_,
    fun numSegments huge => ?_⟩
  · obtain ⟨ordered, inside⟩ := s.bounded
    rw [le_iff_toNat_le] at ordered
    rw [lt_iff_toNat_lt] at inside positive
    have extent := getDimension_toNat s
    have dimension := UInt64.toNat_lt s.vectorSpace.dimension
    have whole := Nat.div_add_mod s.getDimension.toNat numSegments.toNat
    have quotient := UInt64.toNat_div s.getDimension numSegments
    have product : (numSegments * (s.getDimension / numSegments)).toNat =
        numSegments.toNat * (s.getDimension.toNat / numSegments.toNat) := by
      rw [UInt64.toNat_mul, quotient]
      exact Nat.mod_eq_of_lt (by change _ < 2 ^ 64; omega)
    have spread : 1 ≤ s.getDimension.toNat / numSegments.toNat := Nat.div_pos fewer positive
    have remainder : (s.getDimension - numSegments * (s.getDimension / numSegments)).toNat =
        s.getDimension.toNat % numSegments.toNat := by
      rw [toNat_sub_of_le (by omega), product]
      omega
    obtain ⟨segments, last, loop, final, bounds, names, spaces⟩ :=
      splitLoop_spec s.vectorSpace ("_" ++ s.name ++ "_") (s.getDimension / numSegments)
        (s.getDimension - numSegments * (s.getDimension / numSegments)) s.lowerBound.toNat
        numSegments.toNat (by rw [quotient]; exact spread)
        (by rw [remainder]; exact Nat.mod_lt _ positive)
        (by simp only [segmentStart, quotient, remainder]; omega)
        numSegments.toNat 0 s.lowerBound (by simp)
        (by simp only [segmentStart, UInt64.toNat_zero, Nat.zero_mul, Nat.zero_min, Nat.add_zero])
    simp only [quotient, remainder, UInt64.toNat_zero, Nat.zero_add] at final bounds names
    have closed : segmentStart s.lowerBound.toNat (s.getDimension.toNat / numSegments.toNat)
        (s.getDimension.toNat % numSegments.toNat) numSegments.toNat = s.upperBound.toNat + 1 := by
      rw [segmentStart_last _ _ _ positive, extent]
      omega
    have ended : last = s.upperBound + 1 :=
      UInt64.ext (by rw [final, closed, toNat_add_of_lt (by rw [toNat_one]; omega), toNat_one])
    have length : segments.length = numSegments.toNat := by
      simpa using congrArg List.length bounds
    have at_ := map_eq_map_range_getElem bounds
    obtain ⟨adjacent, extents⟩ := adjacent_extent_of_bounds bounds spread
    refine ⟨segments, ?_, length, fun segment member =>
      ⟨spaces segment member, segment.bounded⟩, ?_, ?_, adjacent, extents, names⟩
    · simp only [splitUniform, if_neg (UInt64.ne_of_lt positive).symm, if_neg (Nat.not_lt.mpr small),
        if_pos (le_iff_toNat_le.mpr fewer), loop, if_pos ended]
    · rw [List.head?_eq_getElem?, List.getElem?_eq_getElem (by omega), Option.map_some']
      exact congrArg some (UInt64.ext
        (by simpa [segmentStart] using congrArg Prod.fst (at_ 0 (by omega))))
    · rw [List.getLast?_eq_getElem?, List.getElem?_eq_getElem (by omega), Option.map_some']
      refine congrArg some (UInt64.ext ?_)
      have := congrArg Prod.snd (at_ (segments.length - 1) (by omega))
      have lastIndex : numSegments.toNat - 1 + 1 = numSegments.toNat := by omega
      simp only [length, lastIndex, closed] at this ⊢
      simpa using this
  · have positive : numSegments ≠ 0 := by
      rintro rfl
      exact Nat.not_lt_zero _ more
    have excessive : ¬ numSegments ≤ s.getDimension := Nat.not_le_of_lt more
    simp only [splitUniform, if_neg positive, if_neg (Nat.not_lt.mpr small), if_neg excessive]
  · have positive : numSegments ≠ 0 := by
      rintro rfl
      exact Nat.not_lt_zero _ huge
    simp only [splitUniform, if_neg positive, if_pos huge]

/-- A subspace of `2 ^ 60` basis vectors cannot be split into `2 ^ 59` segments,
although it has more basis vectors than segments: the result vector's
constructor throws `length_error` first. -/
theorem split_beyond_max_size_throws :
    ∃ s : Subspace, (576460752303423488 : UInt64).toNat ≤
        s.upperBound.toNat - s.lowerBound.toNat + 1 ∧
      s.splitUniform 576460752303423488 = .error .lengthError :=
  ⟨⟨⟨1152921504606846976⟩, 0, 1152921504606846975, "range", by decide⟩, by decide, rfl⟩

end Subspace

end Exatn.Numerics
