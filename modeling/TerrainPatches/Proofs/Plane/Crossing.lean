import TerrainPatches.Proofs.Plane

/-!
# How often a ray crosses the sides of a triangle

`crossing p a b` counts how the side from `a` to `b` crosses the ray that runs from `p` in the
direction of growing `x`: `1` if upward, `-1` if downward, `0` if not at all.  The lower end of
a side belongs to it and the upper end does not, so a ray through a corner is counted once.

`Winds a b c p` is what the three sides of a triangle that turns left count together: `1` if `p`
is inside, `0` if `p` is outside the closed triangle, never less than `0` (`winds`).  On the
sides themselves it may be either.
-/

namespace TerrainPatches

namespace Plane

/-- whether the side from `a` to `b` crosses the ray from `p` upward -/
noncomputable def rises (p a b : ℝ × ℝ) : ℤ :=
  if a.2 ≤ p.2 ∧ p.2 < b.2 ∧ 0 < turn a b p then 1 else 0

/-- upward crossings count `1`, downward ones `-1` -/
noncomputable def crossing (p a b : ℝ × ℝ) : ℤ := rises p a b - rises p b a

theorem crossing_swap (p a b : ℝ × ℝ) : crossing p b a = - crossing p a b := by
  unfold crossing
  omega

/-! ## one side -/

section
variable {p a b : ℝ × ℝ}

theorem crossing_below (ha : a.2 ≤ p.2) (hb : b.2 ≤ p.2) : crossing p a b = 0 := by
  unfold crossing rises
  rw [if_neg (fun h => absurd h.2.1 (not_lt.mpr hb)), if_neg (fun h => absurd h.2.1 (not_lt.mpr ha))]
  rfl

theorem crossing_above (ha : p.2 < a.2) (hb : p.2 < b.2) : crossing p a b = 0 := by
  unfold crossing rises
  rw [if_neg (fun h => absurd ha (not_lt.mpr h.1)), if_neg (fun h => absurd hb (not_lt.mpr h.1))]
  rfl

theorem crossing_up (ha : a.2 ≤ p.2) (hb : p.2 < b.2) :
    crossing p a b = if 0 < turn a b p then 1 else 0 := by
  have h0 : rises p b a = 0 := if_neg fun h => absurd hb (not_lt.mpr h.1)
  rw [crossing, h0, sub_zero, rises]
  simp only [ha, hb, true_and]

theorem crossing_down (ha : p.2 < a.2) (hb : b.2 ≤ p.2) :
    crossing p a b = if turn a b p < 0 then -1 else 0 := by
  rw [crossing_swap, crossing_up hb ha, turn_swap a b]
  simp only [neg_pos]
  split <;> rfl

end

/-! ## three sides -/

/-- what the sides of a triangle count together -/
noncomputable def around (p a b c : ℝ × ℝ) : ℤ := crossing p a b + crossing p b c + crossing p c a

structure Winds (p a b c : ℝ × ℝ) : Prop where
  inside : 0 < turn a b p → 0 < turn b c p → 0 < turn c a p → around p a b c = 1
  closed : around p a b c ≠ 0 → 0 ≤ turn a b p ∧ 0 ≤ turn b c p ∧ 0 ≤ turn c a p
  nonneg : 0 ≤ around p a b c

section
variable {p a b c : ℝ × ℝ}

theorem around_rotate (p a b c : ℝ × ℝ) : around p b c a = around p a b c := by
  unfold around
  omega

theorem Winds.rotate (h : Winds p b c a) : Winds p a b c where
  inside h1 h2 h3 := by
    rw [← around_rotate]
    exact h.inside h2 h3 h1
  closed hne := by
    obtain ⟨h2, h3, h1⟩ := h.closed (by rwa [around_rotate])
    exact ⟨h1, h2, h3⟩
  nonneg := by
    rw [← around_rotate]
    exact h.nonneg

/-- all corners on one side of the ray's line: nothing crosses, and nothing is inside -/
theorem winds_of_around_zero (h0 : around p a b c = 0)
    (hin : 0 < turn a b p → 0 < turn b c p → 0 < turn c a p → False) : Winds p a b c where
  inside h1 h2 h3 := (hin h1 h2 h3).elim
  closed hne := absurd h0 hne
  nonneg := h0.ge

theorem winds_of_around_one (h1 : around p a b c = 1) (ha : 0 ≤ turn a b p) (hb : 0 ≤ turn b c p)
    (hc : 0 ≤ turn c a p) : Winds p a b c where
  inside _ _ _ := h1
  closed _ := ⟨ha, hb, hc⟩
  nonneg := by rw [h1]; exact zero_le_one

theorem winds_all_above (ha : p.2 < a.2) (hb : p.2 < b.2) (hc : p.2 < c.2) : Winds p a b c := by
  apply winds_of_around_zero
  · unfold around
    rw [crossing_above ha hb, crossing_above hb hc, crossing_above hc ha]
    rfl
  · intro h1 h2 h3
    have e := turn_height a b c p
    have p1 := mul_pos h1 (sub_pos.mpr hc)
    have p2 := mul_pos h2 (sub_pos.mpr ha)
    have p3 := mul_pos h3 (sub_pos.mpr hb)
    linarith

theorem winds_all_below (ha : a.2 ≤ p.2) (hb : b.2 ≤ p.2) (hc : c.2 ≤ p.2) : Winds p a b c := by
  apply winds_of_around_zero
  · unfold around
    rw [crossing_below ha hb, crossing_below hb hc, crossing_below hc ha]
    rfl
  · intro h1 h2 h3
    have e := turn_height a b c p
    have p1 := mul_nonneg h1.le (sub_nonneg.mpr hc)
    have p2 := mul_nonneg h2.le (sub_nonneg.mpr ha)
    have p3 := mul_nonneg h3.le (sub_nonneg.mpr hb)
    have ea : p.2 - a.2 = 0 := by
      have : turn b c p * (p.2 - a.2) = 0 := by linarith
      exact (mul_eq_zero.mp this).resolve_left h2.ne'
    have eb : p.2 - b.2 = 0 := by
      have : turn c a p * (p.2 - b.2) = 0 := by linarith
      exact (mul_eq_zero.mp this).resolve_left h3.ne'
    have e0 : turn a b p = 0 := by
      unfold turn
      rw [ea, show b.2 - a.2 = 0 by linarith]
      ring
    exact absurd e0 h1.ne'

/-- one corner above the ray's line: its two sides rise and fall -/
theorem winds_one_above (h : 0 < turn a b c) (ha : a.2 ≤ p.2) (hb : p.2 < b.2) (hc : c.2 ≤ p.2) :
    Winds p a b c := by
  have hs := turn_sum a b c p
  have e := turn_height a b c p
  have er : around p a b c = (if 0 < turn a b p then 1 else 0) + if turn b c p < 0 then -1 else 0 := by
    unfold around
    rw [crossing_up ha hb, crossing_down hb hc, crossing_below hc ha, add_zero]
  have hb' : 0 < b.2 - p.2 := sub_pos.mpr hb
  -- left of the falling side whenever left of the rising one, or the triangle would turn right
  have hfall : turn a b p ≤ 0 → 0 ≤ turn b c p := by
    intro h1
    by_contra h2
    have p1 := mul_nonneg_of_nonpos_of_nonpos h1 (sub_nonpos.mpr hc)
    have p2 := mul_nonneg_of_nonpos_of_nonpos (not_le.mp h2).le (sub_nonpos.mpr ha)
    have p3 := mul_pos (show 0 < turn c a p by linarith) hb'
    linarith
  have hthird : 0 ≤ turn a b p → 0 ≤ turn b c p → 0 ≤ turn c a p := by
    intro h1 h2
    have p1 := mul_nonpos_of_nonneg_of_nonpos h1 (sub_nonpos.mpr hc)
    have p2 := mul_nonpos_of_nonneg_of_nonpos h2 (sub_nonpos.mpr ha)
    by_contra h3
    have p3 := mul_neg_of_neg_of_pos (not_le.mp h3) hb'
    linarith
  by_cases h1 : 0 < turn a b p
  · by_cases h2 : turn b c p < 0
    · rw [if_pos h1, if_pos h2] at er
      exact winds_of_around_zero er fun _ h2' _ => absurd h2' (not_lt.mpr h2.le)
    · rw [if_pos h1, if_neg h2] at er
      have h2' := not_lt.mp h2
      exact winds_of_around_one er h1.le h2' (hthird h1.le h2')
  · have h2 := hfall (not_lt.mp h1)
    rw [if_neg h1, if_neg (not_lt.mpr h2)] at er
    exact winds_of_around_zero er fun h1' _ _ => absurd h1' h1

theorem winds_one_below (h : 0 < turn a b c) (ha : a.2 ≤ p.2) (hb : p.2 < b.2) (hc : p.2 < c.2) :
    Winds p a b c := by
  have hs := turn_sum a b c p
  have e := turn_height a b c p
  have er : around p a b c = (if 0 < turn a b p then 1 else 0) + if turn c a p < 0 then -1 else 0 := by
    unfold around
    rw [crossing_up ha hb, crossing_above hb hc, crossing_down hc ha, add_zero]
  have hb' : 0 < b.2 - p.2 := sub_pos.mpr hb
  have hc' : 0 < c.2 - p.2 := sub_pos.mpr hc
  have hfall : turn a b p ≤ 0 → 0 ≤ turn c a p := by
    intro h1
    by_contra h3
    have p1 := mul_nonpos_of_nonpos_of_nonneg h1 hc'.le
    have p2 := mul_nonpos_of_nonneg_of_nonpos (show 0 ≤ turn b c p by linarith) (sub_nonpos.mpr ha)
    have p3 := mul_neg_of_neg_of_pos (not_le.mp h3) hb'
    linarith
  have hthird : 0 < turn a b p → 0 ≤ turn c a p → 0 ≤ turn b c p := by
    intro h1 h3
    have p1 := mul_pos h1 hc'
    have p3 := mul_nonneg h3 hb'.le
    by_contra h2
    have p2 := mul_nonneg_of_nonpos_of_nonpos (not_le.mp h2).le (sub_nonpos.mpr ha)
    linarith
  by_cases h1 : 0 < turn a b p
  · by_cases h3 : turn c a p < 0
    · rw [if_pos h1, if_pos h3] at er
      exact winds_of_around_zero er fun _ _ h3' => absurd h3' (not_lt.mpr h3.le)
    · rw [if_pos h1, if_neg h3] at er
      have h3' := not_lt.mp h3
      exact winds_of_around_one er h1.le (hthird h1 h3') h3'
  · have h3 := hfall (not_lt.mp h1)
    rw [if_neg h1, if_neg (not_lt.mpr h3)] at er
    exact winds_of_around_zero er fun h1' _ _ => absurd h1' h1

/-- **The sides of a triangle that turns left count `1` around a point inside and `0` around a
point outside.** -/
theorem winds (h : 0 < turn a b c) : Winds p a b c := by
  have h' : 0 < turn b c a := by rwa [turn_rotate]
  have h'' : 0 < turn c a b := by rwa [turn_rotate]
  rcases le_or_gt a.2 p.2 with ha | ha <;> rcases le_or_gt b.2 p.2 with hb | hb <;>
    rcases le_or_gt c.2 p.2 with hc | hc
  · exact winds_all_below ha hb hc
  · exact (winds_one_above h' hb hc ha).rotate
  · exact winds_one_above h ha hb hc
  · exact winds_one_below h ha hb hc
  · exact (winds_one_above h'' hc ha hb).rotate.rotate
  · exact (winds_one_below h' hb hc ha).rotate
  · exact (winds_one_below h'' hc ha hb).rotate.rotate
  · exact winds_all_above ha hb hc

end

end Plane

end TerrainPatches
