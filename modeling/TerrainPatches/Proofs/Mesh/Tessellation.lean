import TerrainPatches.Proofs.Mesh.Rim

/-!
# Tessellations of a square

A triangle list is a `Tessellation` of the square with corners `(0, 0)` and `(last, last)` if no
triangle is flat, all lie in the square, and every flow around the triangles is the flow along
the rim.  From these three:

* `Tessellation.countP_inside`      every point of the open square off the sides is inside exactly
                                    one triangle;
* `Tessellation.countP_hasSide_inner`   a side off the rim belongs to two triangles;
* `Tessellation.hasSide_on_iff`, `Tessellation.countP_hasSide_on`   the sides on the rim are its
                                    segments, and each belongs to one triangle;
* `Tessellation.no_corner_between`  no corner of a triangle lies within a side of another;
* `Tessellation.corner_on_iff`      the corners on a side of the square are the multiples of its
                                    stride.

The order in which a triangle lists its corners does not matter.
-/

namespace TerrainPatches

namespace Mesh

open Filter Topology

/-! ## flows around lists -/

/-- what flows around the triangles of a list together -/
def flow (f : GridPoint → GridPoint → ℤ) (ts : List Triangle) : ℤ := (ts.map (Triangle.flow f)).sum

section
variable (f : GridPoint → GridPoint → ℤ)

theorem flow_cons (t : Triangle) (ts : List Triangle) : flow f (t :: ts) = t.flow f + flow f ts := by
  simp [flow]
theorem flow_append (a b : List Triangle) : flow f (a ++ b) = flow f a + flow f b := by
  simp [flow]

theorem flow_map {ι : Type} (l : List ι) (g : ι → Triangle) :
    flow f (l.map g) = (l.map fun x => (g x).flow f).sum := by
  rw [flow, List.map_map]
  rfl

theorem flow_flatMap {ι : Type} (l : List ι) (g : ι → List Triangle) :
    flow f (l.flatMap g) = (l.map fun x => flow f (g x)).sum := by
  induction l with
  | nil => rfl
  | cons x l ih => rw [List.flatMap_cons, flow_append, ih, List.map_cons, List.sum_cons]

end

section
variable {ts : List Triangle}

open scoped Classical in
/-- no ray crosses less often than the triangles that it starts in -/
theorem countP_inside_le_flow (p : ℝ × ℝ) (h0 : ∀ t ∈ ts, t.turn ≠ 0) :
    (ts.countP (fun t => p ∈ interior t.region) : ℤ) ≤ flow (Triangle.crossingAt p) ts := by
  induction ts with
  | nil => exact le_rfl
  | cons t ts ih =>
    have c := Triangle.counted p (h0 t (List.mem_cons_self ..))
    have ih' := ih fun t' ht' => h0 t' (List.mem_cons_of_mem _ ht')
    rw [flow_cons, List.countP_cons]
    by_cases hp : p ∈ interior t.region
    · rw [c.inside hp]
      simp only [hp, decide_true, if_true]
      push_cast
      linarith
    · simp only [hp, decide_false, Bool.false_eq_true, if_false, add_zero]
      linarith [c.nonneg]

open scoped Classical in
theorem countP_inside_eq_flow {p : ℝ × ℝ} (h0 : ∀ t ∈ ts, t.turn ≠ 0)
    (hside : ∀ t ∈ ts, ¬ t.OnSide p) :
    (ts.countP (fun t => p ∈ interior t.region) : ℤ) = flow (Triangle.crossingAt p) ts := by
  induction ts with
  | nil => rfl
  | cons t ts ih =>
    have c := Triangle.counted p (h0 t (List.mem_cons_self ..))
    have ih' := ih (fun t' ht' => h0 t' (List.mem_cons_of_mem _ ht'))
      (fun t' ht' => hside t' (List.mem_cons_of_mem _ ht'))
    rw [flow_cons, List.countP_cons]
    by_cases hp : p ∈ interior t.region
    · rw [c.inside hp]
      simp only [hp, decide_true, if_true]
      push_cast
      linarith
    · rw [c.outside hp (hside t (List.mem_cons_self ..))]
      simp only [hp, decide_false, Bool.false_eq_true, if_false, add_zero]
      linarith

/-- the flow of one side counts the triangles on its left against those on its right -/
theorem flow_unit (h0 : ∀ t ∈ ts, t.turn ≠ 0) (p q : GridPoint) :
    flow (Triangle.unit p q) ts
      = (ts.countP (fun t => t.LeftOf p q) : ℤ) - ts.countP (fun t => t.LeftOf q p) := by
  induction ts with
  | nil => rfl
  | cons t ts ih =>
    rw [flow_cons, Triangle.flow_unit (h0 t (List.mem_cons_self ..)),
      ih fun t' ht' => h0 t' (List.mem_cons_of_mem _ ht'), List.countP_cons, List.countP_cons]
    simp only [decide_eq_true_eq]
    push_cast
    ring

theorem countP_hasSide (h0 : ∀ t ∈ ts, t.turn ≠ 0) (p q : GridPoint) :
    ts.countP (fun t => t.HasSide p q)
      = ts.countP (fun t => t.LeftOf p q) + ts.countP (fun t => t.LeftOf q p) := by
  induction ts with
  | nil => rfl
  | cons t ts ih =>
    have ht := h0 t (List.mem_cons_self ..)
    rw [List.countP_cons, List.countP_cons, List.countP_cons,
      ih fun t' ht' => h0 t' (List.mem_cons_of_mem _ ht')]
    simp only [decide_eq_true_eq, Triangle.hasSide_iff ht]
    by_cases h1 : t.LeftOf p q
    · simp only [h1, h1.not_swap, or_false, if_true, if_false]
      omega
    · simp only [h1, false_or, if_false]
      omega

theorem rimFlow_unit (last : Nat) (s : Side → Nat) (p q : GridPoint) :
    rimFlow (Triangle.unit p q) last s = ((rim last s).count (p, q) : ℤ) - (rim last s).count (q, p) := by
  unfold rimFlow
  induction rim last s with
  | nil => rfl
  | cons e es ih =>
    rw [List.map_cons, List.sum_cons, ih, List.count_cons, List.count_cons]
    simp only [Triangle.unit, beq_iff_eq]
    push_cast
    ring

end

/-! ## tessellations -/

structure Tessellation (last : Nat) (s : Side → Nat) (ts : List Triangle) : Prop where
  size_pos : 0 < last
  stride_pos : ∀ side, 0 < s side
  stride_dvd : ∀ side, s side ∣ last
  turned : ∀ t ∈ ts, t.turn ≠ 0
  within : ∀ t ∈ ts, ∀ p ∈ t.corners, p.x ≤ last ∧ p.y ≤ last
  flow_eq : ∀ f, Triangle.Alternating f → flow f ts = rimFlow f last s

namespace Tessellation

variable {last : Nat} {s : Side → Nat} {ts : List Triangle} (T : Tessellation last s ts)
include T

/-! ### no overlap, no hole -/

open scoped Classical in
/-- **Every point of the open square off the sides is inside exactly one triangle.** -/
theorem countP_inside {p : ℝ × ℝ} (hx : p.1 ∈ Set.Ioo (0 : ℝ) last) (hy : p.2 ∈ Set.Ioo (0 : ℝ) last)
    (hside : ∀ t ∈ ts, ¬ t.OnSide p) :
    ts.countP (fun t => p ∈ interior t.region) = 1 := by
  have h := countP_inside_eq_flow T.turned hside
  rw [T.flow_eq _ (Triangle.alternating_crossingAt p),
    flow_rim_inside T.stride_dvd hx.1 hx.2 hy.1 hy.2] at h
  exact_mod_cast h

open scoped Classical in
theorem countP_inside_le (p : ℝ × ℝ) : ts.countP (fun t => p ∈ interior t.region) ≤ 1 := by
  have h := countP_inside_le_flow p T.turned
  rw [T.flow_eq _ (Triangle.alternating_crossingAt p)] at h
  have h1 := flow_rim_le T.stride_dvd p
  omega

open scoped Classical in
theorem eq_of_inside {p : ℝ × ℝ} {t t' : Triangle} (ht : t ∈ ts) (ht' : t' ∈ ts)
    (hp : p ∈ interior t.region) (hp' : p ∈ interior t'.region) : t = t' := by
  by_contra hne
  have h1 := T.countP_inside_le p
  have h2 : [t, t'].length ≤ (ts.filter (fun t => p ∈ interior t.region)).length := by
    refine (List.subperm_of_subset (by simpa using hne) fun x hx => ?_).length_le
    rcases List.mem_pair.mp hx with rfl | rfl
    · exact List.mem_filter.mpr ⟨ht, decide_eq_true hp⟩
    · exact List.mem_filter.mpr ⟨ht', decide_eq_true hp'⟩
  rw [← List.countP_eq_length_filter] at h2
  have h3 : 2 ≤ 1 := h2.trans h1
  omega

/-! ### sides -/

/-- next to the middle of a side, all triangles on its left meet -/
theorem countP_leftOf_le (p q : GridPoint) : ts.countP (fun t => t.LeftOf p q) ≤ 1 := by
  classical
  rcases Nat.eq_zero_or_pos (ts.countP fun t => t.LeftOf p q) with h0 | hpos
  · omega
  have hne : p.plane ≠ q.plane := by
    obtain ⟨t, -, ht⟩ := List.countP_pos_iff.mp hpos
    exact GridPoint.plane_injective.ne (of_decide_eq_true ht).ne
  obtain ⟨v, hv⟩ : ∃ v, v ∈ openSegment ℝ p.plane q.plane :=
    ⟨_, 1 / 2, 1 / 2, by norm_num, by norm_num, by norm_num, rfl⟩
  have near : ∀ᶠ r in 𝓝[>] (0 : ℝ), ∀ t ∈ {t | t ∈ ts}, t.LeftOf p q →
      v + r • Plane.leftward p.plane q.plane ∈ interior t.region := by
    refine (eventually_all_finite ts.finite_toSet).mpr fun t _ => ?_
    by_cases ht : t.LeftOf p q
    · obtain ⟨r, hr⟩ := ht.listed
      filter_upwards [Plane.near_side hr.turns_plane hv (Plane.turn_leftward hne)] with ε hε _
      exact hr.inside hε
    · exact Eventually.of_forall fun _ h => absurd h ht
  obtain ⟨ε, hε⟩ := near.exists
  refine le_trans (List.countP_mono_left fun t ht hleft => ?_)
    (T.countP_inside_le (v + ε • Plane.leftward p.plane q.plane))
  exact decide_eq_true (hε t ht (of_decide_eq_true hleft))

theorem countP_left_sub (p q : GridPoint) :
    (ts.countP (fun t => t.LeftOf p q) : ℤ) - ts.countP (fun t => t.LeftOf q p)
      = ((rim last s).count (p, q) : ℤ) - (rim last s).count (q, p) := by
  rw [← flow_unit T.turned, T.flow_eq _ (Triangle.alternating_unit p q), rimFlow_unit]

/-- where the square lies to the right of a side, no triangle lies to its left -/
theorem countP_leftOf_zero {p q : GridPoint}
    (h : ∀ r : GridPoint, r.x ≤ last → r.y ≤ last → GridPoint.turn p q r ≤ 0) :
    ts.countP (fun t => t.LeftOf p q) = 0 := by
  rw [List.countP_eq_zero]
  intro t ht hleft
  obtain ⟨r, hr⟩ := (of_decide_eq_true hleft).listed
  obtain ⟨hx, hy⟩ := T.within t ht r ((hr.corners_iff r).mpr (.inr (.inr rfl)))
  exact absurd hr.turns (not_lt.mpr (h r hx hy))

theorem countP_rim {p q : GridPoint} (h : (p, q) ∈ rim last s) :
    ts.countP (fun t => t.LeftOf p q) = 1 ∧ ts.countP (fun t => t.LeftOf q p) = 0 := by
  have h0 : ts.countP (fun t => t.LeftOf q p) = 0 := by
    refine T.countP_leftOf_zero fun r hx hy => ?_
    rw [GridPoint.turn_swap]
    exact neg_nonpos.mpr (rim_left h hx hy)
  have h1 := T.countP_left_sub p q
  rw [h0, List.count_eq_zero_of_not_mem (rim_one_way T.size_pos T.stride_pos h)] at h1
  have h2 : 0 < (rim last s).count (p, q) := List.count_pos_iff.mpr h
  have h3 := T.countP_leftOf_le p q
  omega

theorem mem_rim_of_countP {p q : GridPoint} (h : 0 < ts.countP fun t => t.LeftOf p q)
    (h0 : ts.countP (fun t => t.LeftOf q p) = 0) : (p, q) ∈ rim last s := by
  have h1 := T.countP_left_sub p q
  rw [← List.count_pos_iff]
  omega

theorem countP_pos_of_hasSide {t : Triangle} (ht : t ∈ ts) {p q : GridPoint} (h : t.HasSide p q) :
    0 < ts.countP (fun t => t.LeftOf p q) + ts.countP (fun t => t.LeftOf q p) := by
  rw [← countP_hasSide T.turned]
  exact List.countP_pos_iff.mpr ⟨t, ht, decide_eq_true h⟩

/-- **A side that is not on the rim belongs to two triangles.** -/
theorem countP_hasSide_inner {t : Triangle} (ht : t ∈ ts) {p q : GridPoint} (h : t.HasSide p q)
    (hin : ¬ ∃ side : Side, side.On last p ∧ side.On last q) :
    ts.countP (fun t => t.HasSide p q) = 2 := by
  have hp : (p, q) ∉ rim last s := fun hr => by
    obtain ⟨side, j, -, e⟩ := mem_rim.mp hr
    exact hin ⟨side, Side.on_of_edge e⟩
  have hq : (q, p) ∉ rim last s := fun hr => by
    obtain ⟨side, j, -, e⟩ := mem_rim.mp hr
    exact hin ⟨side, (Side.on_of_edge e).symm⟩
  have h1 := T.countP_left_sub p q
  rw [List.count_eq_zero_of_not_mem hp, List.count_eq_zero_of_not_mem hq] at h1
  have h2 := T.countP_pos_of_hasSide ht h
  have h3 := T.countP_leftOf_le p q
  rw [countP_hasSide T.turned]
  omega

theorem mem_rim_of_hasSide {t : Triangle} (ht : t ∈ ts) {p q : GridPoint} (h : t.HasSide p q)
    {side : Side} (hp : side.On last p) (hq : side.On last q) :
    (p, q) ∈ rim last s ∨ (q, p) ∈ rim last s := by
  have h1 := T.countP_pos_of_hasSide ht h
  rcases side_right hp hq with hr | hr
  · have h0 := T.countP_leftOf_zero hr
    exact .inr (T.mem_rim_of_countP (by omega) h0)
  · have h0 := T.countP_leftOf_zero hr
    exact .inl (T.mem_rim_of_countP (by omega) h0)

theorem hasSide_of_mem_rim {p q : GridPoint} (h : (p, q) ∈ rim last s) :
    ∃ t ∈ ts, t.HasSide p q := by
  have h1 := (T.countP_rim h).1
  obtain ⟨t, ht, hleft⟩ := List.countP_pos_iff.mp (show 0 < ts.countP fun t => t.LeftOf p q by omega)
  exact ⟨t, ht, (Triangle.hasSide_iff (T.turned t ht)).mpr (.inl (of_decide_eq_true hleft))⟩

/-- **The sides of triangles on a side of the square are its segments.** -/
theorem hasSide_on_iff {side : Side} {p q : GridPoint} (hp : side.On last p)
    (hq : side.On last q) :
    (∃ t ∈ ts, t.HasSide p q) ↔ ∃ k, (k + 1) * s side ≤ last ∧
      s(p, q) = s(side.point last (k * s side), side.point last ((k + 1) * s side)) := by
  constructor
  · rintro ⟨t, ht, h⟩
    obtain ⟨j, hj, e⟩ : ∃ j ∈ starts last (s side),
        s((side.edge last (s side) j).1, (side.edge last (s side) j).2) = s(p, q) := by
      rcases T.mem_rim_of_hasSide ht h hp hq with hr | hr
      · obtain ⟨j, hj, e⟩ := rim_side T.size_pos T.stride_pos hr hp hq
        exact ⟨j, hj, by rw [e]⟩
      · obtain ⟨j, hj, e⟩ := rim_side T.size_pos T.stride_pos hr hq hp
        exact ⟨j, hj, by rw [e, Sym2.eq_swap]⟩
    obtain ⟨k, -, rfl⟩ := mem_starts.mp hj
    rw [Side.sym_edge, ← Nat.succ_mul] at e
    exact ⟨k, (Nat.succ_mul k (s side)).trans_le (starts_le hj), e.symm⟩
  · rintro ⟨k, hk, e⟩
    have hlt : k < last / s side := (Nat.le_div_iff_mul_le (T.stride_pos side)).mpr hk
    have hj : k * s side ∈ starts last (s side) := mem_starts.mpr ⟨k, hlt, rfl⟩
    obtain ⟨t, ht, h⟩ := T.hasSide_of_mem_rim (mem_rim.mpr ⟨side, _, hj, rfl⟩)
    rw [Nat.succ_mul, ← Side.sym_edge] at e
    rcases Sym2.eq_iff.mp e with ⟨rfl, rfl⟩ | ⟨rfl, rfl⟩
    · exact ⟨t, ht, h⟩
    · exact ⟨t, ht, h.symm⟩

theorem hasSide_segment {side : Side} {k : Nat} (hk : (k + 1) * s side ≤ last) :
    ∃ t ∈ ts, t.HasSide (side.point last (k * s side)) (side.point last ((k + 1) * s side)) :=
  (T.hasSide_on_iff (side.on_point last _) (side.on_point last _)).mpr ⟨k, hk, rfl⟩

/-- **Each of them belongs to one triangle.** -/
theorem countP_hasSide_on {side : Side} {p q : GridPoint} (hp : side.On last p)
    (hq : side.On last q) (h : ∃ t ∈ ts, t.HasSide p q) :
    ts.countP (fun t => t.HasSide p q) = 1 := by
  obtain ⟨t, ht, h⟩ := h
  rw [countP_hasSide T.turned]
  rcases T.mem_rim_of_hasSide ht h hp hq with hr | hr
  · rw [(T.countP_rim hr).1, (T.countP_rim hr).2]
  · rw [(T.countP_rim hr).1, (T.countP_rim hr).2]

/-! ### corners -/

theorem exists_leftOf {t : Triangle} (ht : t ∈ ts) {p q : GridPoint} (h : t.HasSide p q)
    {r : GridPoint} (hx : r.x ≤ last) (hy : r.y ≤ last) (hr : 0 < GridPoint.turn p q r) :
    ∃ t' ∈ ts, t'.LeftOf p q := by
  by_contra hno
  have h0 : ts.countP (fun t => t.LeftOf p q) = 0 :=
    List.countP_eq_zero.mpr fun t' ht' hleft => hno ⟨t', ht', of_decide_eq_true hleft⟩
  have h1 := T.countP_pos_of_hasSide ht h
  have h2 := rim_left (T.mem_rim_of_countP (by omega) h0) hx hy
  rw [GridPoint.turn_swap] at h2
  omega

/-- no triangle has a corner within a side and reaches to the left of it -/
theorem not_left_of_between {t t' : Triangle} (ht : t ∈ ts) (ht' : t' ∈ ts) {p q u v w : GridPoint}
    (h : t.HasSide p q) (hv : v.plane ∈ openSegment ℝ p.plane q.plane) (hl : t'.Listed v u w)
    {a b : ℝ} (ha : 0 < a) (hb : 0 < b) :
    a * GridPoint.turn p q u + b * GridPoint.turn p q w ≤ 0 := by
  by_contra hleft
  rw [not_le] at hleft
  obtain ⟨r, hr, hpos⟩ : ∃ r ∈ t'.corners, 0 < GridPoint.turn p q r := by
    by_contra hno
    have hu : GridPoint.turn p q u ≤ 0 :=
      not_lt.mp fun hu => hno ⟨u, (hl.corners_iff u).mpr (.inr (.inl rfl)), hu⟩
    have hw : GridPoint.turn p q w ≤ 0 :=
      not_lt.mp fun hw => hno ⟨w, (hl.corners_iff w).mpr (.inr (.inr rfl)), hw⟩
    have hu' := mul_nonpos_of_nonneg_of_nonpos ha.le (Int.cast_nonpos (R := ℝ).mpr hu)
    have hw' := mul_nonpos_of_nonneg_of_nonpos hb.le (Int.cast_nonpos (R := ℝ).mpr hw)
    linarith
  obtain ⟨hx, hy⟩ := T.within t' ht' r hr
  obtain ⟨t'', ht'', hleft'⟩ := T.exists_leftOf ht h hx hy hpos
  obtain ⟨r', hl'⟩ := hleft'.listed
  have hv0 := Plane.turn_of_mem_openSegment hv
  have hd : 0 < Plane.turn p.plane q.plane
      (p.plane + (a • (u.plane - v.plane) + b • (w.plane - v.plane))) := by
    rw [Plane.turn_combine, hv0, ← GridPoint.cast_turn, ← GridPoint.cast_turn]
    linarith
  -- just beside `v` a point is inside both, so they are one triangle, with `v` a corner off `p q`
  obtain ⟨ε, h1, h2⟩ := ((Plane.near_side hl'.turns_plane hv hd).and
    (Plane.near_corner hl.turns_plane ha hb)).exists
  have e : t'' = t' := T.eq_of_inside ht'' ht' (hl'.inside h1) (hl.inside h2)
  subst e
  rcases (hl'.corners_iff v).mp ((hl.corners_iff v).mpr (.inl rfl)) with rfl | rfl | rfl
  · exact hl'.ne (GridPoint.plane_injective (left_mem_openSegment_iff.mp hv))
  · exact hl'.ne (GridPoint.plane_injective (right_mem_openSegment_iff.mp hv))
  · exact hl'.turns_plane.ne' hv0

/-- **No corner of a triangle lies within a side of another.** -/
theorem no_corner_between {t t' : Triangle} (ht : t ∈ ts) (ht' : t' ∈ ts) {p q v : GridPoint}
    (h : t.HasSide p q) (hv : v ∈ t'.corners) : v.plane ∉ openSegment ℝ p.plane q.plane := by
  intro hvs
  obtain ⟨u, w, hl⟩ := Triangle.listed_corner (T.turned t' ht') hv
  have hvs' : v.plane ∈ openSegment ℝ q.plane p.plane := by rwa [openSegment_symm]
  have hzero : ∀ b : ℝ, 0 < b → (GridPoint.turn p q u : ℝ) + b * GridPoint.turn p q w = 0 := by
    intro b hb
    have h1 := T.not_left_of_between ht ht' h hvs hl one_pos hb
    have h2 := T.not_left_of_between ht ht' h.symm hvs' hl one_pos hb
    rw [GridPoint.turn_swap p q u, GridPoint.turn_swap p q w] at h2
    push_cast at h2
    linarith
  have h1 := hzero 1 one_pos
  have h2 := hzero 2 two_pos
  have hw : GridPoint.turn p q w = 0 :=
    Int.cast_eq_zero (α := ℝ).mp (by linarith)
  have hu : GridPoint.turn p q u = 0 :=
    Int.cast_eq_zero (α := ℝ).mp (by linarith)
  have hv0 : GridPoint.turn p q v = 0 := by
    refine Int.cast_eq_zero (α := ℝ).mp ?_
    rw [GridPoint.cast_turn]
    exact Plane.turn_of_mem_openSegment hvs
  have hne : p ≠ q := by
    rcases (Triangle.hasSide_iff (T.turned t ht)).mp h with hleft | hleft
    · exact hleft.ne
    · exact hleft.ne.symm
  exact hl.turns.ne' (GridPoint.turn_of_line hne hu hv0 hw)

/-- **The corners on a side of the square are the multiples of its stride.** -/
theorem corner_on_iff {side : Side} {v : GridPoint} (hv : side.On last v) :
    (∃ t ∈ ts, v ∈ t.corners) ↔ s side ∣ side.along v ∧ side.along v ≤ last := by
  constructor
  · rintro ⟨t, ht, hc⟩
    have hle : side.along v ≤ last := by
      obtain ⟨hx, hy⟩ := T.within t ht v hc
      cases side <;> assumption
    refine ⟨?_, hle⟩
    by_contra hnd
    obtain ⟨k, h1, h2, hk⟩ := exists_between (T.stride_pos side) (T.stride_dvd side) hnd hle
    obtain ⟨t', ht', hs⟩ := T.hasSide_segment hk
    have hb := side.point_mem_openSegment last h1 h2
    rw [← Side.eq_point hv] at hb
    exact T.no_corner_between ht' ht hs hc hb
  · rintro ⟨⟨k, hk⟩, hle⟩
    rw [Side.eq_point hv, hk, mul_comm]
    rw [hk, mul_comm] at hle
    cases k with
    | zero =>
      have h1 : (0 + 1) * s side ≤ last := by
        rw [zero_add, one_mul]
        exact Nat.le_of_dvd T.size_pos (T.stride_dvd side)
      obtain ⟨t, ht, hs⟩ := T.hasSide_segment h1
      exact ⟨t, ht, hs.mem_corners.1⟩
    | succ k =>
      obtain ⟨t, ht, hs⟩ := T.hasSide_segment hle
      exact ⟨t, ht, hs.mem_corners.2⟩

end Tessellation

/-! ## conforming lists -/

/-- every side is shared as it has to be: by two triangles, or, on the rim, by a segment of the
neighbour; and no triangle has a corner within a side -/
structure Conforming (last : Nat) (s : Side → Nat) (ts : List Triangle) : Prop where
  inner_twice : ∀ t ∈ ts, ∀ p q, t.HasSide p q → (¬ ∃ side : Side, side.On last p ∧ side.On last q) →
    ts.countP (fun t => t.HasSide p q) = 2
  border_sides : ∀ (side : Side) (p q : GridPoint), side.On last p → side.On last q →
    ((∃ t ∈ ts, t.HasSide p q) ↔ ∃ k, (k + 1) * s side ≤ last ∧
      s(p, q) = s(side.point last (k * s side), side.point last ((k + 1) * s side)))
  border_once : ∀ (side : Side) (p q : GridPoint), side.On last p → side.On last q →
    (∃ t ∈ ts, t.HasSide p q) → ts.countP (fun t => t.HasSide p q) = 1
  border_corners : ∀ (side : Side) (v : GridPoint), side.On last v →
    ((∃ t ∈ ts, v ∈ t.corners) ↔ s side ∣ side.along v ∧ side.along v ≤ last)
  no_junction : ∀ t ∈ ts, ∀ t' ∈ ts, ∀ p q, t.HasSide p q → ∀ v ∈ t'.corners,
    v.plane ∉ openSegment ℝ p.plane q.plane

theorem Tessellation.conforming {last : Nat} {s : Side → Nat} {ts : List Triangle}
    (T : Tessellation last s ts) : Conforming last s ts where
  inner_twice _ ht _ _ h hin := T.countP_hasSide_inner ht h hin
  border_sides _ _ _ hp hq := T.hasSide_on_iff hp hq
  border_once _ _ _ hp hq h := T.countP_hasSide_on hp hq h
  border_corners _ _ hv := T.corner_on_iff hv
  no_junction _ ht _ ht' _ _ h _ hv := T.no_corner_between ht ht' h hv

end Mesh

end TerrainPatches
