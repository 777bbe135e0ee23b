import Mathlib

/-!
# Left and right in the plane

`turn a b p` is twice the signed area of the triangle `a b p`: positive if `p` lies to the left
of the way from `a` to `b`.  A triangle is the hull of its corners; for one that turns left

* `mem_interior_hull`   a point is inside iff it lies to the left of all three sides;
* `mem_segment`         a point of the closed triangle on the line of a side lies on that side;
* `near_side`     a small step from a point of a side to the left leads inside;
* `near_corner`   so does a small step from a corner to between its two sides.

The small steps are what compares neighbours: two triangles that meet at a side or at a corner
are told apart by the points next to it.
-/

namespace TerrainPatches

namespace Plane

open Filter Topology

/-- twice the signed area of `a b p`: positive if `p` is to the left of the way from `a` to `b` -/
def turn (a b p : ℝ × ℝ) : ℝ := (b.1 - a.1) * (p.2 - a.2) - (p.1 - a.1) * (b.2 - a.2)

theorem turn_swap (a b p : ℝ × ℝ) : turn b a p = - turn a b p := by
  unfold turn
  ring

theorem turn_rotate (a b c : ℝ × ℝ) : turn b c a = turn a b c := by
  unfold turn
  ring

theorem turn_left_end (a b : ℝ × ℝ) : turn a b a = 0 := by
  unfold turn
  ring

theorem turn_right_end (a b : ℝ × ℝ) : turn a b b = 0 := by
  unfold turn
  ring

/-- seen from any point, the three sides together turn as the triangle does -/
theorem turn_sum (a b c p : ℝ × ℝ) : turn a b p + turn b c p + turn c a p = turn a b c := by
  unfold turn
  ring

/-- the turns seen from a point weight the opposite corners so that they balance at its height -/
theorem turn_height (a b c p : ℝ × ℝ) :
    turn a b p * (c.2 - p.2) + turn b c p * (a.2 - p.2) + turn c a p * (b.2 - p.2) = 0 := by
  unfold turn
  ring

/-- a point is the mean of the corners weighted by the turns of the opposite sides -/
theorem turn_mean (a b c p : ℝ × ℝ) :
    turn b c p • a + turn c a p • b + turn a b p • c = turn a b c • p := by
  unfold turn
  ext
  · simp only [Prod.fst_add, Prod.smul_fst, smul_eq_mul]
    ring
  · simp only [Prod.snd_add, Prod.smul_snd, smul_eq_mul]
    ring

theorem mean_eq {a b c p : ℝ × ℝ} (h : turn a b c ≠ 0) :
    (turn b c p / turn a b c) • a + (turn c a p / turn a b c) • b
      + (turn a b p / turn a b c) • c = p := by
  have e := congrArg ((turn a b c)⁻¹ • ·) (turn_mean a b c p)
  simpa only [smul_add, smul_smul, inv_mul_cancel₀ h, one_smul, div_eq_inv_mul] using e

/-- a turn is affine in the point it is seen from -/
theorem turn_mix (a b p q : ℝ × ℝ) {u v : ℝ} (h : u + v = 1) :
    turn a b (u • p + v • q) = u * turn a b p + v * turn a b q := by
  have e : v = 1 - u := by linarith
  subst e
  unfold turn
  simp only [Prod.fst_add, Prod.smul_fst, Prod.snd_add, Prod.smul_snd, smul_eq_mul]
  ring

theorem turn_of_mem_segment {a b p : ℝ × ℝ} (h : p ∈ segment ℝ a b) : turn a b p = 0 := by
  obtain ⟨u, v, -, -, huv, rfl⟩ := h
  rw [turn_mix a b a b huv, turn_left_end, turn_right_end, mul_zero, mul_zero, add_zero]

theorem turn_of_mem_openSegment {a b p : ℝ × ℝ} (h : p ∈ openSegment ℝ a b) : turn a b p = 0 :=
  turn_of_mem_segment (openSegment_subset_segment ℝ a b h)

/-! ## small steps -/

theorem turn_step (a b p d : ℝ × ℝ) (r : ℝ) :
    turn a b (p + r • d) = turn a b p + r * turn a b (a + d) := by
  unfold turn
  simp only [Prod.fst_add, Prod.smul_fst, Prod.snd_add, Prod.smul_snd, smul_eq_mul]
  ring

/-- a step between two others turns by their turns, less that of the point they start from -/
theorem turn_combine (a b p q r : ℝ × ℝ) (u v : ℝ) :
    turn a b (a + (u • (q - p) + v • (r - p)))
      = u * turn a b q + v * turn a b r - (u + v) * turn a b p := by
  unfold turn
  simp only [Prod.fst_add, Prod.smul_fst, Prod.fst_sub, Prod.snd_add, Prod.smul_snd,
    Prod.snd_sub, smul_eq_mul]
  ring

/-- the direction to the left of the way from `a` to `b` -/
def leftward (a b : ℝ × ℝ) : ℝ × ℝ := (a.2 - b.2, b.1 - a.1)

theorem turn_leftward {a b : ℝ × ℝ} (h : a ≠ b) : 0 < turn a b (a + leftward a b) := by
  have e : turn a b (a + leftward a b) = (b.1 - a.1) ^ 2 + (b.2 - a.2) ^ 2 := by
    unfold turn leftward
    simp only [Prod.fst_add, Prod.snd_add]
    ring
  rw [e]
  by_cases h1 : b.1 - a.1 = 0
  · have h2 : b.2 - a.2 ≠ 0 := fun h2 => h (Prod.ext (by linarith) (by linarith))
    exact add_pos_of_nonneg_of_pos (sq_nonneg _) (sq_pos_of_ne_zero h2)
  · exact add_pos_of_pos_of_nonneg (sq_pos_of_ne_zero h1) (sq_nonneg _)

theorem continuous_turn (a b : ℝ × ℝ) : Continuous (turn a b) := by
  unfold turn
  fun_prop

theorem near_open {s : Set (ℝ × ℝ)} (hs : IsOpen s) {p : ℝ × ℝ} (hp : p ∈ s) (d : ℝ × ℝ) :
    ∀ᶠ r in 𝓝[>] (0 : ℝ), p + r • d ∈ s := by
  have hc : Continuous fun r : ℝ => p + r • d := by fun_prop
  have h0 : p + (0 : ℝ) • d ∈ s := by simpa using hp
  exact (hc.continuousAt.eventually_mem (hs.mem_nhds h0)).filter_mono nhdsWithin_le_nhds

theorem near_left {a b p : ℝ × ℝ} (h : 0 < turn a b p) (d : ℝ × ℝ) :
    ∀ᶠ r in 𝓝[>] (0 : ℝ), 0 < turn a b (p + r • d) :=
  near_open (isOpen_lt continuous_const (continuous_turn a b)) h d

theorem step_left {a b p d : ℝ × ℝ} (h : turn a b p = 0) (hd : 0 < turn a b (a + d)) :
    ∀ᶠ r in 𝓝[>] (0 : ℝ), 0 < turn a b (p + r • d) := by
  filter_upwards [self_mem_nhdsWithin] with r hr
  rw [turn_step, h, zero_add]
  exact mul_pos hr hd

/-! ## triangles -/

section
variable {a b c p : ℝ × ℝ}

theorem hull_left (h : 0 < turn a b c) (hp : p ∈ convexHull ℝ {a, b, c}) : 0 ≤ turn a b p := by
  have hconv : Convex ℝ {q | 0 ≤ turn a b q} := by
    intro q hq q' hq' u v hu hv huv
    show 0 ≤ turn a b (u • q + v • q')
    rw [turn_mix a b q q' huv]
    exact add_nonneg (mul_nonneg hu hq) (mul_nonneg hv hq')
  have hsub : ({a, b, c} : Set (ℝ × ℝ)) ⊆ {q | 0 ≤ turn a b q} := by
    rintro q (rfl | rfl | rfl)
    · exact (turn_left_end q b).ge
    · exact (turn_right_end a q).ge
    · exact h.le
  exact convexHull_min hsub hconv hp

theorem mem_hull (h : 0 < turn a b c) (h1 : 0 ≤ turn a b p) (h2 : 0 ≤ turn b c p)
    (h3 : 0 ≤ turn c a p) : p ∈ convexHull ℝ {a, b, c} := by
  have hs := turn_sum a b c p
  have hw : turn b c p / turn a b c + (turn c a p / turn a b c + turn a b p / turn a b c) = 1 := by
    field_simp
    linarith
  have key := (convex_convexHull ℝ ({a, b, c} : Set (ℝ × ℝ))).sum_mem
    (t := Finset.univ) (w := ![turn b c p / turn a b c, turn c a p / turn a b c,
      turn a b p / turn a b c]) (z := ![a, b, c]) ?_ ?_ ?_
  · have e := mean_eq h.ne' (p := p)
    rw [add_assoc] at e
    rw [← e]
    simp only [Fin.sum_univ_succ, Fin.sum_univ_zero, add_zero] at key
    exact key
  · intro i _
    fin_cases i
    · exact div_nonneg h2 h.le
    · exact div_nonneg h3 h.le
    · exact div_nonneg h1 h.le
  · simpa [Fin.sum_univ_succ] using hw
  · intro i _
    apply subset_convexHull
    fin_cases i <;> simp

theorem interior_left (h : 0 < turn a b c) (hp : p ∈ interior (convexHull ℝ {a, b, c})) :
    0 < turn a b p := by
  have hab : a ≠ b := by
    rintro rfl
    have : turn a a c = 0 := by unfold turn; ring
    linarith
  obtain ⟨r, hr, hr0⟩ := ((near_open isOpen_interior hp (-leftward a b)).and
    self_mem_nhdsWithin).exists
  have h1 := hull_left h (interior_subset hr)
  have e : p + r • -leftward a b = p + (-r) • leftward a b := by rw [smul_neg, neg_smul]
  rw [e, turn_step] at h1
  have h2 := mul_pos (show 0 < r from hr0) (turn_leftward hab)
  linarith

theorem hull_rotate (a b c : ℝ × ℝ) : ({a, b, c} : Set (ℝ × ℝ)) = {b, c, a} := by
  rw [Set.insert_comm a b, Set.pair_comm a c]

/-- **A point is inside a triangle that turns left iff it is to the left of all three sides.** -/
theorem mem_interior_hull (h : 0 < turn a b c) :
    p ∈ interior (convexHull ℝ {a, b, c}) ↔
      0 < turn a b p ∧ 0 < turn b c p ∧ 0 < turn c a p := by
  have h' : 0 < turn b c a := by rwa [turn_rotate]
  have h'' : 0 < turn c a b := by rwa [turn_rotate, turn_rotate]
  constructor
  · intro hp
    refine ⟨interior_left h hp, interior_left h' ?_, interior_left h'' ?_⟩
    · rwa [← hull_rotate a b c]
    · rwa [← hull_rotate b c a, ← hull_rotate a b c]
  · rintro ⟨h1, h2, h3⟩
    have hopen : IsOpen {q | 0 < turn a b q ∧ 0 < turn b c q ∧ 0 < turn c a q} :=
      (isOpen_lt continuous_const (continuous_turn a b)).inter
        ((isOpen_lt continuous_const (continuous_turn b c)).inter
          (isOpen_lt continuous_const (continuous_turn c a)))
    refine interior_maximal (fun q hq => ?_) hopen ⟨h1, h2, h3⟩
    exact mem_hull h hq.1.le hq.2.1.le hq.2.2.le

theorem mem_segment (h : 0 < turn a b c) (h1 : turn a b p = 0) (h2 : 0 ≤ turn b c p)
    (h3 : 0 ≤ turn c a p) : p ∈ segment ℝ a b := by
  have hs := turn_sum a b c p
  refine ⟨turn b c p / turn a b c, turn c a p / turn a b c, div_nonneg h2 h.le,
    div_nonneg h3 h.le, ?_, ?_⟩
  · field_simp
    linarith
  · have e := mean_eq h.ne' (p := p)
    rw [h1, zero_div, zero_smul, add_zero] at e
    exact e

theorem near_side {v d : ℝ × ℝ} (h : 0 < turn a b c) (hv : v ∈ openSegment ℝ a b)
    (hd : 0 < turn a b (a + d)) :
    ∀ᶠ r in 𝓝[>] (0 : ℝ), v + r • d ∈ interior (convexHull ℝ {a, b, c}) := by
  have h1 := turn_of_mem_openSegment hv
  obtain ⟨u, w, hu, hw, huw, rfl⟩ := hv
  have h2 : 0 < turn b c (u • a + w • b) := by
    rw [turn_mix b c a b huw, turn_left_end, mul_zero, add_zero, turn_rotate]
    exact mul_pos hu h
  have h3 : 0 < turn c a (u • a + w • b) := by
    rw [turn_mix c a a b huw, turn_right_end, mul_zero, zero_add, turn_rotate, turn_rotate]
    exact mul_pos hw h
  filter_upwards [step_left h1 hd, near_left h2 d, near_left h3 d] with r l1 l2 l3
  exact (mem_interior_hull h).mpr ⟨l1, l2, l3⟩

theorem near_corner {u v : ℝ} (h : 0 < turn a b c) (hu : 0 < u) (hv : 0 < v) :
    ∀ᶠ r in 𝓝[>] (0 : ℝ),
      a + r • (u • (b - a) + v • (c - a)) ∈ interior (convexHull ℝ {a, b, c}) := by
  have e1 : turn a b (a + (u • (b - a) + v • (c - a))) = v * turn a b c := by
    rw [turn_combine, turn_right_end, turn_left_end]
    ring
  have e3 : turn c a (c + (u • (b - a) + v • (c - a))) = u * turn a b c := by
    rw [turn_combine, turn_right_end, turn_left_end, turn_rotate, turn_rotate]
    ring
  have h2 : 0 < turn b c a := by rwa [turn_rotate]
  filter_upwards [step_left (turn_left_end a b) (e1 ▸ mul_pos hv h), near_left h2 _,
    step_left (turn_right_end c a) (e3 ▸ mul_pos hu h)] with r l1 l2 l3
  exact (mem_interior_hull h).mpr ⟨l1, l2, l3⟩

end

end Plane

end TerrainPatches
