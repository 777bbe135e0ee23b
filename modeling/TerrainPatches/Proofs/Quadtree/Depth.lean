import TerrainPatches.Proofs.Quadtree.Levels
import TerrainPatches.Proofs.Single.Logarithm

/-!
# The limit on the depth is high enough

The depth to which a patch may be quartered is the rounded logarithm of a rounded quotient, and one
more.  A size that still exceeds the greatest one after `j` halvings is more than `2 ^ j` times as
large (`lt_of_lt_halved`), and the rounded quotient is no less (`lt_ratio`).  A size that no longer
does is at most `4 ^ j` times as large (`le_of_halved_le`), although halvings of the smallest numbers
are rounded.  So the quotient is finite and its logarithm is large enough, and a patch that needs few
quarterings is never refused (`split_of_settles`).

How many quarterings a patch needs is also said with `≤` (`settles_iff`), and with exact halvings
unless the greatest size is tiny (`settles_iff_exact`).
-/

namespace TerrainPatches

open Float.Model Float.Model.UnpackedFloat

/-! ## halving -/

section
variable {a maxSize : Float32} {x y : ℚ}

theorem Holds.halve (ha : Holds a x) :
    ∃ v, Holds (a / Scalar.two) v ∧ RoundsTo (x / 2) v := by
  obtain ⟨v, hv, h⟩ := ha.div holds_two two_pos
  have hle : v ≤ x := (hv x ha.writable).2 (half_le_self ha.nonneg)
  exact ⟨v, h (hle.trans_lt ha.lt_ceiling), hv⟩

/-- a size that still exceeds another one after some halvings -/
theorem lt_of_lt_halved (ha : Holds a x) (hmax : Holds maxSize y) {j : Nat}
    (h : maxSize < halved j a) : 2 ^ j * y < x := by
  induction j generalizing a x with
  | zero =>
    rw [pow_zero, one_mul, ← hmax.value, ← ha.value]
    exact (lt_iff hmax.finite ha.finite).mp h
  | succ j ih =>
    obtain ⟨v, hv, hrounds⟩ := ha.halve
    have hlt := ih hv h
    by_contra hle
    have : x / 2 ≤ 2 ^ j * y := by
      rw [pow_succ] at hle
      linarith
    exact absurd hlt (not_lt.mpr ((hrounds _ (hmax.writable.two_pow_mul j)).2 this))

/-- a size that no longer exceeds another one after some halvings -/
theorem le_of_halved_le (ha : Holds a x) (hmax : Holds maxSize y) (hy : 0 < y) {j : Nat}
    (h : ¬ maxSize < halved j a) : x ≤ 4 ^ j * y := by
  induction j generalizing a x with
  | zero =>
    rw [pow_zero, one_mul, ← hmax.value, ← ha.value]
    exact not_lt.mp (mt (lt_iff hmax.finite ha.finite).mpr h)
  | succ j ih =>
    obtain ⟨v, hv, hrounds⟩ := ha.halve
    have hle := ih hv h
    by_contra hlt
    -- twice the bound can be written, so the half would not have been rounded below it
    have four : (4 : ℚ) ^ j = 2 ^ (2 * j) := by rw [pow_mul]; norm_num
    have bound := (hrounds _ (hmax.writable.two_pow_mul (2 * j + 1))).1 (by
      rw [pow_succ] at hlt ⊢
      rw [← four]
      linarith)
    have hpos : 0 < (4 : ℚ) ^ j * y := by positivity
    rw [pow_succ, ← four] at bound
    linarith

theorem Holds.halved (ha : Holds a x) (j : Nat) : (halved j a).isFinite = true := by
  induction j generalizing a x with
  | zero => exact ha.finite
  | succ j ih =>
    obtain ⟨v, hv, -⟩ := ha.halve
    exact ih hv

/-- halving is exact unless it leads below the least number with all its bits -/
theorem Writable.half {c : ℚ} (h : Writable c) (hc : amount (2 ^ 23) (-149) < c / 2) :
    Writable (c / 2) := by
  rcases h with rfl | ⟨m, e, hw, rfl⟩
  · exact .inl (zero_div 2)
  · have half : amount m e / 2 = amount m (e - 1) := by
      unfold amount
      rw [zpow_sub_one₀ (by norm_num)]
      ring
    have least : e ≠ -149 := by
      rintro rfl
      rw [lt_div_iff₀ two_pos, amount, amount] at hc
      have hm : (m : ℚ) < 2 ^ 24 := by exact_mod_cast hw.lt
      norm_num at hc
      linarith
    rw [half]
    have := hw.least
    exact writable_of_le hw.lt.le (by omega)

theorem Holds.halve_exact (ha : Holds a x) (hx : amount (2 ^ 23) (-149) < x / 2) :
    Holds (a / Scalar.two) (x / 2) :=
  ha.div_exact holds_two two_pos (ha.writable.half hx)
    ((half_le_self ha.nonneg).trans_lt ha.lt_ceiling)

/-- so a greatest size with all its bits is exceeded as if halvings were exact -/
theorem lt_halved_iff (ha : Holds a x) (hmax : Holds maxSize y) (hy : amount (2 ^ 23) (-149) ≤ y)
    (j : Nat) : maxSize < halved j a ↔ y < x / 2 ^ j := by
  induction j generalizing a x with
  | zero =>
    rw [pow_zero, div_one, ← hmax.value, ← ha.value]
    exact lt_iff hmax.finite ha.finite
  | succ j ih =>
    rw [pow_succ', ← div_div]
    by_cases h : y < x / 2
    · exact ih (ha.halve_exact (hy.trans_lt h))
    -- what is rounded does not exceed the greatest size any more
    · obtain ⟨v, hv, hrounds⟩ := ha.halve
      have settled {z : ℚ} (hz : 0 ≤ z) (hle : z ≤ y) : ¬ y < z / 2 ^ j :=
        not_lt.mpr ((div_le_self hz (one_le_pow₀ (by norm_num))).trans hle)
      rw [halved, ih hv]
      exact iff_of_false (settled hv.nonneg ((hrounds y hmax.writable).2 (not_lt.mp h)))
        (settled (div_nonneg ha.nonneg two_pos.le) (not_lt.mp h))

end

/-! ## the limit -/

section
variable {size maxSize : Float32} {k : Nat}

theorem Settles.lt (hk : Settles maxSize size k) {j : Nat} (h : j < k) :
    maxSize < halved j size := by
  by_contra hj
  exact absurd (hk.2 hj) (not_le.mpr h)

/-- halvings lead below every positive size -/
theorem exists_settles (hsize : size.isFinite = true) (hmax : Scalar.zero < maxSize) :
    ∃ k, Settles maxSize size k := by
  have reached : {j | ¬ maxSize < halved j size}.Nonempty := by
    by_cases hlarge : maxSize < size
    · obtain ⟨hfinite, hpos⟩ := pos_of_lt hsize hmax hlarge
      obtain ⟨hx, -⟩ := holds_of_pos hsize hpos
      obtain ⟨hy, hypos⟩ := holds_of_pos hfinite hmax
      obtain ⟨j, hj⟩ := pow_unbounded_of_one_lt (value size / value maxSize) one_lt_two
      refine ⟨j, fun h => ?_⟩
      rw [div_lt_iff₀ hypos] at hj
      exact absurd (lt_of_lt_halved hx hy h) hj.not_gt
    · exact ⟨0, hlarge⟩
  exact ⟨_, Nat.sInf_mem reached, fun _ hj => Nat.sInf_le hj⟩

/-- the least number of halvings, read as the least after which a size is at most the greatest -/
theorem settles_iff (hsize : size.isFinite = true) (hmax : Scalar.zero < maxSize) :
    Settles maxSize size k ↔ IsLeast {j | halved j size ≤ maxSize} k := by
  by_cases hle : maxSize < size
  · have hpos := (pos_of_lt hsize hmax hle).2
    have hfinite := (holds_of_pos hsize hpos).1.halved
    have same : {j | halved j size ≤ maxSize} = {j | ¬ maxSize < halved j size} :=
      Set.ext fun j => le_iff_not_lt (hfinite j) hmax
    rw [same]
    exact Iff.rfl
  -- no halvings are needed, and then it does not matter what further ones would give
  · have hzero : 0 ∈ {j | halved j size ≤ maxSize} := (le_iff_not_lt hsize hmax).mpr hle
    constructor
    · intro hk
      rw [hk.eq_zero hle]
      exact ⟨hzero, fun _ _ => Nat.zero_le _⟩
    · intro hk
      rw [Nat.le_zero.mp (hk.2 hzero)]
      exact settles_zero hle

/-- and, if the greatest size has all its bits, as if halvings were exact -/
theorem settles_iff_exact {x y : ℚ} (hsize : Holds size x) (hmax : Holds maxSize y)
    (hy : amount (2 ^ 23) (-149) ≤ y) :
    Settles maxSize size k ↔ IsLeast {j : Nat | x / 2 ^ j ≤ y} k := by
  simp only [Settles, lt_halved_iff hsize hmax hy, not_lt]

section
variable {log2 : Float32 → Float32} {ratio : Float32} {v : ℚ}

theorem depthLimit_of_not_pos (hlog : IsLogarithm log2) (h : ¬ Scalar.zero < ratio) :
    Quadtree.depthLimit log2 ratio = .ok 1 := by
  unfold Quadtree.depthLimit
  rw [ceilNat_of_not_pos (hlog.not_pos h)]
  rfl

theorem depthLimit_of_holds (hlog : IsLogarithm log2) (h : Holds ratio v) :
    ∃ limit, Quadtree.depthLimit log2 ratio = .ok limit ∧ ∀ j : Nat, 2 ^ j ≤ v → j + 1 ≤ limit := by
  obtain ⟨hle, hge⟩ := ceilNat_log2 hlog h
  have small : Scalar.ceilNat (log2 ratio) + 1 < countLimit := by
    unfold countLimit
    omega
  refine ⟨_, if_pos small, fun j hj => ?_⟩
  have := hge j hj
  omega

end

section
variable {x y : ℚ}

/-- the rounded quotient of the sizes is more than the power of two below the level -/
theorem lt_ratio (hsize : Holds size x) (hmax : Holds maxSize y) (hy : 0 < y)
    (hk : Settles maxSize size k) (h : (size / maxSize).isFinite = true) :
    ∃ v, Holds (size / maxSize) v ∧ ∀ j < k, 2 ^ j < v := by
  obtain ⟨v, hrounds, hv⟩ := hsize.div_finite hmax hy h
  refine ⟨v, hv, ?_⟩
  intro j hj
  refine hrounds.lt_two_pow ?_
  have hgap := (hmax.writable.two_pow_mul j).gap hsize.writable
    (lt_of_lt_halved hsize hmax (hk.lt hj))
  rw [lt_div_iff₀ hy, mul_right_comm]
  exact hgap

/-- the quotient is not too large unless many halvings are needed -/
theorem finite_ratio (hsize : Holds size x) (hmax : Holds maxSize y) (hy : 0 < y)
    (hk : Settles maxSize size k) (h24 : k ≤ 24) : (size / maxSize).isFinite = true := by
  obtain ⟨v, hrounds, hv⟩ := hsize.div hmax hy
  have upper : x / y ≤ 2 ^ 48 := by
    have hpow : (4 : ℚ) ^ k ≤ 4 ^ 24 := pow_le_pow_right₀ (by norm_num) h24
    rw [div_le_iff₀ hy, show (2 : ℚ) ^ 48 = 4 ^ 24 by norm_num]
    exact (le_of_halved_le hsize hmax hy hk.1).trans (mul_le_mul_of_nonneg_right hpow hy.le)
  refine (hv (((hrounds _ (writable_two_pow 48)).2 upper).trans_lt ?_)).finite
  unfold ceiling
  norm_num

end

/-- **The limit allows every level if the quotient is finite.** -/
theorem depthLimit_of_settles {log2 : Float32 → Float32} (hlog : IsLogarithm log2)
    (hsize : size.isFinite = true) (hmax : Scalar.zero < maxSize) (hk : Settles maxSize size k)
    (hratio : maxSize.isFinite = true → Scalar.zero < size → (size / maxSize).isFinite = true) :
    ∃ limit, Quadtree.depthLimit log2 (size / maxSize) = .ok limit ∧ k ≤ limit := by
  by_cases h : maxSize.isFinite = true ∧ Scalar.zero < size
  · obtain ⟨hfinite, hpos⟩ := h
    obtain ⟨hy, hypos⟩ := holds_of_pos hfinite hmax
    obtain ⟨v, hv, hlt⟩ :=
      lt_ratio (holds_of_pos hsize hpos).1 hy hypos hk (hratio hfinite hpos)
    obtain ⟨limit, hlimit, hge⟩ := depthLimit_of_holds hlog hv
    refine ⟨limit, hlimit, ?_⟩
    cases k with
    | zero => exact Nat.zero_le _
    | succ j => exact hge j (hlt j (Nat.lt_succ_self j)).le
  · have hnot : ¬ Scalar.zero < size / maxSize := by
      rcases unpack_of_pos hmax with hu | hfinite
      · exact not_pos_div_infinity hsize hu
      · exact not_pos_div hsize (fun hpos => h ⟨hfinite, hpos⟩) hmax
    refine ⟨1, depthLimit_of_not_pos hlog hnot, ?_⟩
    rw [hk.eq_zero (mt (pos_of_lt hsize hmax) h)]
    exact Nat.zero_le _

/-- a patch that needs few quarterings is not refused -/
theorem split_of_settles (hsize : size.isFinite = true) (hmax : Scalar.zero < maxSize)
    (hk : Settles maxSize size k) (h24 : k ≤ 24) (center : Point2 Float32) :
    Quadtree.split size center maxSize = .ok (Quadtree.quarterings k (.whole size center)) := by
  obtain ⟨limit, hlimit, hle⟩ := depthLimit_of_settles isLogarithm_log2Up hsize hmax hk
    fun hfinite hpos => by
      obtain ⟨hy, hypos⟩ := holds_of_pos hfinite hmax
      exact finite_ratio (holds_of_pos hsize hpos).1 hy hypos hk h24
  exact Quadtree.leaves_eq_ok_iff.mpr ⟨hmax, hsize, limit, hlimit, k, hle, hk, rfl⟩

end

end TerrainPatches
