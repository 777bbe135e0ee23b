import TerrainPatches.Proofs.Quadtree.Depth

/-!
# The work list is the recursion

Quartering is meant as a recursion without a limit.  `Descends` says what it gives for a square: the
square itself if it is not too large, and else what it gives for the quarters, one after the other.
A square that settles has one result, the squares on the level on which it settles
(`descends_iff`), and every finite square settles.  The work list finds the same squares in the same
order, as long as the ratio of the sizes is finite (`leaves_eq_recursion`): its limit is not reached,
whatever logarithm it was computed with.
-/

namespace TerrainPatches

namespace Quadtree

/-- the leaves that the recursion gives for a square -/
inductive Descends {α : Type} [Scalar α] (maxSize : α) : Square α → List (Square α) → Prop
  | leaf (s : Square α) : ¬ maxSize < s.size → Descends maxSize s [s]
  | quarter (s : Square α) (parts : Square α → List (Square α)) : maxSize < s.size →
      (∀ q ∈ s.quarters, Descends maxSize q (parts q)) →
      Descends maxSize s (s.quarters.flatMap parts)

/-- the recursion ends on the level on which a square settles, and nowhere else -/
theorem descends_iff {α : Type} [Scalar α] {maxSize : α} {k : Nat} {s : Square α}
    {found : List (Square α)} (h : Settles maxSize s.size k) :
    Descends maxSize s found ↔ found = quarterings k s := by
  induction k generalizing s found with
  | zero =>
    constructor
    · intro hfound
      cases hfound with
      | leaf s hsmall => rfl
      | quarter s parts hlarge hparts => exact absurd hlarge h.1
    · intro hfound
      rw [hfound]
      exact .leaf s h.1
  | succ k ih =>
    have hlarge : maxSize < s.size := by
      by_contra hsmall
      cases h.eq_zero hsmall
    have quarters : ∀ q ∈ s.quarters, Settles maxSize q.size k := by
      intro q hq
      rw [size_of_mem_quarters hq]
      exact (settles_succ_iff hlarge).mp h
    constructor
    · intro hfound
      cases hfound with
      | leaf s hsmall => exact absurd hlarge hsmall
      | quarter s parts hlarge hparts =>
        exact List.flatMap_congr fun q hq => (ih (quarters q hq)).mp (hparts q hq)
    · intro hfound
      rw [hfound]
      exact .quarter s (quarterings k) hlarge fun q hq => (ih (quarters q hq)).mpr rfl

section
variable {log2 : Float32 → Float32} {size maxSize : Float32}

theorem le_ceil_logb {k : Nat} {ratio : ℚ} (h : ∀ j < k, 2 ^ j < ratio) :
    k ≤ ⌈Real.logb 2 ratio⌉₊ := by
  cases k with
  | zero => exact Nat.zero_le _
  | succ j =>
    refine Nat.lt_ceil.mpr ?_
    have hlt := h j (Nat.lt_succ_self j)
    have hpos : 0 < ratio := lt_trans (by positivity) hlt
    rw [Real.lt_logb_iff_rpow_lt one_lt_two (by exact_mod_cast hpos), Real.rpow_natCast]
    exact_mod_cast hlt

/-- a size that needs `k` halvings is more than `2 ^ j` times as large as the greatest one for every
lesser `j`, and the rounded ratio says so too -/
theorem two_pow_lt_ratio {k : Nat} (hsize : size.isFinite = true) (hmax : Scalar.zero < maxSize)
    (hratio : (size / maxSize).isFinite = true) (hk : Settles maxSize size k) :
    ∀ j < k, 2 ^ j < value (size / maxSize) ∧ 2 ^ j < value size / value maxSize := by
  intro j hj
  have hlarge : maxSize < halved 0 size := hk.lt (Nat.zero_lt_of_lt hj)
  obtain ⟨hfinite, hpos⟩ := pos_of_lt hsize hmax hlarge
  obtain ⟨hx, -⟩ := holds_of_pos hsize hpos
  obtain ⟨hy, hypos⟩ := holds_of_pos hfinite hmax
  obtain ⟨v, hv, hlt⟩ := lt_ratio hx hy hypos hk hratio
  rw [hv.value, lt_div_iff₀ hypos]
  exact ⟨hlt j hj, lt_of_lt_halved hx hy (hk.lt hj)⟩

/-- **The work list is the recursion.**  For a finite size and a positive greatest size with a ratio
that is finite, the work list ends without a fault, and its leaves are those of the recursion in the
same order.  They are all squares after the least number of halvings that leads to the greatest size
or below it.  The list is emptied under a limit if and only if that number is within it.  No halving
is needed for a size that is not too large, and for others the number is at most the logarithm of the
ratio, rounded up, whether the ratio is rounded or not. -/
theorem leaves_eq_recursion (hlog : IsLogarithm log2) (hsize : size.isFinite = true)
    (hmax : Scalar.zero < maxSize) (hratio : (size / maxSize).isFinite = true)
    (center : Point2 Float32) :
    ∃ k found, leaves log2 size center maxSize = .ok found ∧
      (∀ other, Descends maxSize (.whole size center) other ↔ other = found) ∧
      IsLeast {j | halved j size ≤ maxSize} k ∧ found.length = 4 ^ k ∧
      (∀ s ∈ found, s.size = halved k size) ∧
      (∀ limit, drain limit maxSize [(.whole size center, 0)] [] = .ok found ↔ k ≤ limit) ∧
      k ≤ (if size ≤ maxSize then 0 else ⌈Real.logb 2 (value (size / maxSize))⌉₊) ∧
      k ≤ (if size ≤ maxSize then 0 else ⌈Real.logb 2 (value size / value maxSize)⌉₊) := by
  obtain ⟨k, hk⟩ := exists_settles hsize hmax
  obtain ⟨limit, hlimit, hle⟩ := depthLimit_of_settles hlog hsize hmax hk fun _ _ => hratio
  have ratio := two_pow_lt_ratio hsize hmax hratio hk
  have small : size ≤ maxSize → k ≤ 0 := by
    intro h
    exact (hk.eq_zero ((le_iff_not_lt hsize hmax).mp h)).le
  refine ⟨k, quarterings k (.whole size center), ?_, fun other => descends_iff hk,
    (settles_iff hsize hmax).mp hk, length_quarterings k _,
    fun s hs => size_of_mem_quarterings hs, ?_, ?_, ?_⟩
  · exact leaves_eq_ok_iff.mpr ⟨hmax, hsize, limit, hlimit, k, hle, hk, rfl⟩
  · intro limit
    rw [drain_whole_iff]
    constructor
    · intro h
      obtain ⟨j, hj, settles, -⟩ := h
      rwa [hk.unique settles]
    · intro h
      exact ⟨k, h, hk, rfl⟩
  · split
    · exact small ‹_›
    · exact le_ceil_logb fun j hj => (ratio j hj).1
  · split
    · exact small ‹_›
    · have exact_ratio := le_ceil_logb fun j hj => (ratio j hj).2
      rwa [Rat.cast_div] at exact_ratio

/-- five cells are quartered twice to lie in squares of at most two -/
theorem leaves_eq_recursion_five : ∃ found,
    split (Scalar.ofNat 5) ⟨Scalar.zero, Scalar.zero⟩ Scalar.two = .ok found ∧
      Descends Scalar.two (.whole (Scalar.ofNat 5) ⟨Scalar.zero, Scalar.zero⟩) found ∧
      found.length = 16 ∧
      drain 2 Scalar.two [(.whole (Scalar.ofNat 5) ⟨Scalar.zero, Scalar.zero⟩, 0)] []
        = .ok found := by
  have hsize : (Scalar.ofNat 5 : Float32).isFinite = true := by decide +kernel
  have hmax : Scalar.zero < (Scalar.two : Float32) := by decide +kernel
  have hratio : (Scalar.ofNat 5 / Scalar.two : Float32).isFinite = true := by decide +kernel
  obtain ⟨k, found, hleaves, hdescends, hk, hlength, -, hdrain, -⟩ :=
    leaves_eq_recursion isLogarithm_log2Up hsize hmax hratio ⟨Scalar.zero, Scalar.zero⟩
  have least : IsLeast {j | halved j (Scalar.ofNat 5 : Float32) ≤ Scalar.two} 2 := by
    refine ⟨show halved 2 (Scalar.ofNat 5 : Float32) ≤ Scalar.two by decide +kernel, ?_⟩
    intro j hj
    by_contra hlt
    obtain rfl | rfl : j = 0 ∨ j = 1 := by omega
    · exact absurd hj (show ¬ (Scalar.ofNat 5 : Float32) ≤ Scalar.two by decide +kernel)
    · exact absurd hj
        (show ¬ halved 1 (Scalar.ofNat 5 : Float32) ≤ Scalar.two by decide +kernel)
  have twice : k = 2 := hk.unique least
  refine ⟨found, hleaves, (hdescends found).mpr rfl, ?_, (hdrain 2).mpr twice.le⟩
  rw [hlength, twice]
  norm_num

end

end Quadtree

end TerrainPatches
