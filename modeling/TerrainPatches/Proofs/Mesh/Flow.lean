import TerrainPatches.Mesh.Indices
import TerrainPatches.Proofs.Plane.Crossing

/-!
# Flows around triangles

A triangle list is compared with the area that it covers through FLOWS.  Take a function `f` of
directed sides that changes its sign with the direction (`Alternating`).  The flow of `f` around
a triangle is the sum over its three sides, taken counterclockwise whichever way the corners are
listed; a side that two triangles share from opposite sides cancels.  Two flows are used:

* `crossingAt p`   how sides cross a ray from `p`: the flow around a triangle is `1` if `p` is
                   inside and `0` if it is outside (`counted`);
* `unit p q`       the one side from `p` to `q`: the flow counts the triangle if it lies to the
                   left of that side, and takes it off if it lies to the right (`flow_unit`).

`Mesh.flow` sums over a list.
-/

namespace TerrainPatches

/-! ## grid points in the plane -/

namespace GridPoint

def plane (p : GridPoint) : ℝ × ℝ := (p.x, p.y)

/-- twice the signed area of three grid points -/
def turn (p q r : GridPoint) : ℤ :=
  ((q.x : ℤ) - p.x) * ((r.y : ℤ) - p.y) - ((r.x : ℤ) - p.x) * ((q.y : ℤ) - p.y)

theorem plane_injective : Function.Injective plane := by
  intro p q h
  obtain ⟨hx, hy⟩ := Prod.mk.inj h
  cases p
  cases q
  exact congrArg₂ GridPoint.mk (Nat.cast_injective hx) (Nat.cast_injective hy)

theorem cast_turn (p q r : GridPoint) :
    ((turn p q r : ℤ) : ℝ) = Plane.turn p.plane q.plane r.plane := by
  unfold turn Plane.turn plane
  push_cast
  rfl

theorem turn_swap (p q r : GridPoint) : turn q p r = - turn p q r := by
  unfold turn
  ring

theorem turn_left_end (p q : GridPoint) : turn p q p = 0 := by
  unfold turn
  ring

theorem turn_right_end (p q : GridPoint) : turn p q q = 0 := by
  unfold turn
  ring

theorem turn_self (p r : GridPoint) : turn p p r = 0 := by
  unfold turn
  ring

theorem turn_of_line {p q u v w : GridPoint} (h : p ≠ q) (hu : turn p q u = 0)
    (hv : turn p q v = 0) (hw : turn p q w = 0) : turn v u w = 0 := by
  by_contra ht
  have ex : ((q.x : ℤ) - p.x) * turn v u w = 0 := by
    unfold turn at *
    linear_combination ((u.x : ℤ) - v.x) * (hw - hv) - ((w.x : ℤ) - v.x) * (hu - hv)
  have ey : ((q.y : ℤ) - p.y) * turn v u w = 0 := by
    unfold turn at *
    linear_combination ((u.y : ℤ) - v.y) * (hw - hv) - ((w.y : ℤ) - v.y) * (hu - hv)
  have hx := (mul_eq_zero.mp ex).resolve_right ht
  have hy := (mul_eq_zero.mp ey).resolve_right ht
  cases p
  cases q
  simp only [ne_eq, GridPoint.mk.injEq, not_and] at h hx hy
  omega

end GridPoint

namespace Triangle

/-- twice the signed area -/
def turn (t : Triangle) : ℤ := GridPoint.turn t.a t.b t.c

/-- the area, positive if the corners are listed counterclockwise -/
def signedArea (t : Triangle) : ℚ := (t.turn : ℚ) / 2

/-- the same triangle listed the other way round -/
def flip (t : Triangle) : Triangle := ⟨t.a, t.c, t.b⟩

/-- the same triangle with its second corner listed first -/
def rotate (t : Triangle) : Triangle := ⟨t.b, t.c, t.a⟩

def sides (t : Triangle) : List (GridPoint × GridPoint) := [(t.a, t.b), (t.b, t.c), (t.c, t.a)]

/-- whether the undirected side between `p` and `q` belongs to the triangle -/
def HasSide (t : Triangle) (p q : GridPoint) : Prop := (p, q) ∈ t.sides ∨ (q, p) ∈ t.sides

instance decidableHasSide (t : Triangle) (p q : GridPoint) : Decidable (t.HasSide p q) :=
  inferInstanceAs (Decidable (_ ∨ _))

/-- whether the triangle has this side and lies to the left of it -/
def LeftOf (t : Triangle) (p q : GridPoint) : Prop :=
  (0 < t.turn ∧ (p, q) ∈ t.sides) ∨ (t.turn < 0 ∧ (q, p) ∈ t.sides)

instance decidableLeftOf (t : Triangle) (p q : GridPoint) : Decidable (t.LeftOf p q) :=
  inferInstanceAs (Decidable (_ ∨ _))

def region (t : Triangle) : Set (ℝ × ℝ) := convexHull ℝ {t.a.plane, t.b.plane, t.c.plane}

/-- whether a point of the plane lies on a side -/
def OnSide (t : Triangle) (p : ℝ × ℝ) : Prop := ∃ e ∈ t.sides, p ∈ segment ℝ e.1.plane e.2.plane

theorem signedArea_pos {t : Triangle} : 0 < t.signedArea ↔ 0 < t.turn := by
  unfold signedArea
  rw [div_pos_iff_of_pos_right two_pos]
  exact Int.cast_pos

theorem signedArea_ne_zero {t : Triangle} : t.signedArea ≠ 0 ↔ t.turn ≠ 0 := by
  unfold signedArea
  rw [ne_eq, div_eq_zero_iff, or_iff_left two_ne_zero]
  exact Int.cast_ne_zero

theorem turn_flip (t : Triangle) : t.flip.turn = - t.turn := by
  unfold turn flip GridPoint.turn
  ring

theorem turn_rotate (t : Triangle) : t.rotate.turn = t.turn := by
  unfold turn rotate GridPoint.turn
  ring

theorem region_rotate (t : Triangle) : t.rotate.region = t.region := by
  unfold region rotate
  rw [Plane.hull_rotate t.a.plane]

theorem mem_corners_rotate {t : Triangle} {v : GridPoint} :
    v ∈ t.rotate.corners ↔ v ∈ t.corners := by
  simp only [rotate, corners, List.mem_cons, List.not_mem_nil, or_false]
  tauto

theorem region_flip (t : Triangle) : t.flip.region = t.region := by
  unfold region flip
  rw [Set.pair_comm]

theorem mem_corners_flip {t : Triangle} {v : GridPoint} : v ∈ t.flip.corners ↔ v ∈ t.corners := by
  simp only [flip, corners, List.mem_cons, List.not_mem_nil, or_false]
  tauto

theorem mem_sides_flip {t : Triangle} {p q : GridPoint} :
    (p, q) ∈ t.flip.sides ↔ (q, p) ∈ t.sides := by
  simp only [sides, flip, List.mem_cons, Prod.mk.injEq, List.not_mem_nil, or_false]
  tauto

theorem onSide_flip {t : Triangle} {p : ℝ × ℝ} : t.flip.OnSide p ↔ t.OnSide p := by
  constructor
  · rintro ⟨e, he, hp⟩
    exact ⟨(e.2, e.1), mem_sides_flip.mp he, by rwa [segment_symm]⟩
  · rintro ⟨e, he, hp⟩
    exact ⟨(e.2, e.1), mem_sides_flip.mpr he, by rwa [segment_symm]⟩

theorem leftOf_flip {t : Triangle} {p q : GridPoint} : t.flip.LeftOf p q ↔ t.LeftOf p q := by
  unfold LeftOf
  rw [turn_flip, mem_sides_flip, mem_sides_flip, neg_pos, neg_neg_iff_pos]
  exact or_comm

/-- what holds of triangles that turn left, and does not depend on the order of the corners,
holds of all triangles that are not flat -/
theorem of_turn_pos {motive : Triangle → Prop} (pos : ∀ t : Triangle, 0 < t.turn → motive t)
    (flipped : ∀ t : Triangle, motive t.flip → motive t) {t : Triangle} (h : t.turn ≠ 0) :
    motive t := by
  rcases lt_or_gt_of_ne h with hneg | hpos
  · refine flipped t (pos t.flip ?_)
    rw [turn_flip]
    exact neg_pos.mpr hneg
  · exact pos t hpos

theorem leftOf_of_pos {t : Triangle} (h : 0 < t.turn) {p q : GridPoint} :
    t.LeftOf p q ↔ (p, q) ∈ t.sides := by
  unfold LeftOf
  simp only [h, true_and, not_lt.mpr h.le, false_and, or_false]

theorem hasSide_iff {t : Triangle} (h : t.turn ≠ 0) {p q : GridPoint} :
    t.HasSide p q ↔ t.LeftOf p q ∨ t.LeftOf q p := by
  unfold HasSide LeftOf
  rcases lt_or_gt_of_ne h with h | h
  · simp only [h, not_lt.mpr h.le, false_and, true_and, false_or]
    exact or_comm
  · simp only [h, not_lt.mpr h.le, false_and, true_and, or_false]

theorem HasSide.symm {t : Triangle} {p q : GridPoint} (h : t.HasSide p q) : t.HasSide q p :=
  Or.symm h

/-- `p`, `q`, `r` are the corners, listed counterclockwise -/
structure Listed (t : Triangle) (p q r : GridPoint) : Prop where
  turns : 0 < GridPoint.turn p q r
  region_eq : Triangle.region ⟨p, q, r⟩ = t.region
  corners_iff : ∀ v, v ∈ t.corners ↔ v = p ∨ v = q ∨ v = r

theorem listed_of_pos {t : Triangle} (h : 0 < t.turn) : t.Listed t.a t.b t.c where
  turns := h
  region_eq := rfl
  corners_iff v := by simp only [corners, List.mem_cons, List.not_mem_nil, or_false]

theorem listed_rotate {t : Triangle} {p q r : GridPoint} (h : t.rotate.Listed p q r) :
    t.Listed p q r where
  turns := h.turns
  region_eq := h.region_eq.trans t.region_rotate
  corners_iff v := mem_corners_rotate.symm.trans (h.corners_iff v)

theorem listed_flip {t : Triangle} {p q r : GridPoint} (h : t.flip.Listed p q r) :
    t.Listed p q r where
  turns := h.turns
  region_eq := h.region_eq.trans t.region_flip
  corners_iff v := mem_corners_flip.symm.trans (h.corners_iff v)

theorem LeftOf.listed {t : Triangle} {p q : GridPoint} (h : t.LeftOf p q) :
    ∃ r, t.Listed p q r := by
  have h0 : t.turn ≠ 0 := by
    rcases h with h | h
    · exact h.1.ne'
    · exact h.1.ne
  revert h
  refine of_turn_pos (motive := fun t => t.LeftOf p q → ∃ r, t.Listed p q r)
    (fun t ht h => ?_) (fun t ih h => ?_) h0
  · rw [leftOf_of_pos ht] at h
    simp only [sides, List.mem_cons, Prod.mk.injEq, List.not_mem_nil, or_false] at h
    have ht' : 0 < t.rotate.turn := by rwa [turn_rotate]
    have ht'' : 0 < t.rotate.rotate.turn := by rwa [turn_rotate]
    rcases h with ⟨rfl, rfl⟩ | ⟨rfl, rfl⟩ | ⟨rfl, rfl⟩
    · exact ⟨t.c, listed_of_pos ht⟩
    · exact ⟨t.a, listed_rotate (listed_of_pos ht')⟩
    · exact ⟨t.b, listed_rotate (listed_rotate (listed_of_pos ht''))⟩
  · obtain ⟨r, hr⟩ := ih (leftOf_flip.mpr h)
    exact ⟨r, listed_flip hr⟩

theorem listed_corner {t : Triangle} (h : t.turn ≠ 0) {v : GridPoint} (hv : v ∈ t.corners) :
    ∃ u w, t.Listed v u w := by
  obtain ⟨u, hu⟩ : ∃ u, t.LeftOf v u := by
    simp only [corners, List.mem_cons, List.not_mem_nil, or_false] at hv
    rcases lt_or_gt_of_ne h with h | h
    · rcases hv with rfl | rfl | rfl
      · exact ⟨t.c, .inr ⟨h, by simp [sides]⟩⟩
      · exact ⟨t.a, .inr ⟨h, by simp [sides]⟩⟩
      · exact ⟨t.b, .inr ⟨h, by simp [sides]⟩⟩
    · rcases hv with rfl | rfl | rfl
      · exact ⟨t.b, .inl ⟨h, by simp [sides]⟩⟩
      · exact ⟨t.c, .inl ⟨h, by simp [sides]⟩⟩
      · exact ⟨t.a, .inl ⟨h, by simp [sides]⟩⟩
  obtain ⟨w, hw⟩ := hu.listed
  exact ⟨u, w, hw⟩

theorem Listed.ne {t : Triangle} {p q r : GridPoint} (h : t.Listed p q r) : p ≠ q := by
  rintro rfl
  have h0 := h.turns
  rw [GridPoint.turn_self] at h0
  exact lt_irrefl 0 h0

theorem Listed.turns_plane {t : Triangle} {p q r : GridPoint} (h : t.Listed p q r) :
    0 < Plane.turn p.plane q.plane r.plane := by
  rw [← GridPoint.cast_turn]
  exact Int.cast_pos.mpr h.turns

theorem Listed.inside {t : Triangle} {p q r : GridPoint} (h : t.Listed p q r) {v : ℝ × ℝ}
    (hv : v ∈ interior (convexHull ℝ {p.plane, q.plane, r.plane})) : v ∈ interior t.region := by
  rw [← h.region_eq]
  exact hv

theorem HasSide.mem_corners {t : Triangle} {p q : GridPoint} (h : t.HasSide p q) :
    p ∈ t.corners ∧ q ∈ t.corners := by
  simp only [HasSide, sides, corners, List.mem_cons, Prod.mk.injEq, List.not_mem_nil,
    or_false] at *
  tauto

theorem LeftOf.ne {t : Triangle} {p q : GridPoint} (h : t.LeftOf p q) : p ≠ q := by
  obtain ⟨r, hr⟩ := h.listed
  exact hr.ne

/-- a triangle lies on one side of each of its sides -/
theorem LeftOf.not_swap {t : Triangle} {p q : GridPoint} (h : t.LeftOf p q) : ¬ t.LeftOf q p := by
  intro h'
  obtain ⟨r, hr⟩ := h.listed
  obtain ⟨r', hr'⟩ := h'.listed
  have hpos := hr'.turns
  rw [GridPoint.turn_swap] at hpos
  rcases (hr.corners_iff r').mp ((hr'.corners_iff r').mpr (.inr (.inr rfl))) with rfl | rfl | rfl
  · rw [GridPoint.turn_left_end] at hpos
    omega
  · rw [GridPoint.turn_right_end] at hpos
    omega
  · have := hr.turns
    omega

/-! ## flow around one triangle -/

/-- `f` changes its sign with the direction of the side -/
def Alternating (f : GridPoint → GridPoint → ℤ) : Prop := ∀ p q, f q p = - f p q

/-- the sum over the sides, counterclockwise -/
def flow (f : GridPoint → GridPoint → ℤ) (t : Triangle) : ℤ :=
  t.turn.sign * (f t.a t.b + f t.b t.c + f t.c t.a)

section
variable {f : GridPoint → GridPoint → ℤ} {t : Triangle}

theorem flow_of_pos (h : 0 < t.turn) : t.flow f = f t.a t.b + f t.b t.c + f t.c t.a := by
  rw [flow, Int.sign_eq_one_of_pos h, one_mul]

theorem flow_rotate (f : GridPoint → GridPoint → ℤ) (t : Triangle) : t.rotate.flow f = t.flow f := by
  unfold flow
  rw [turn_rotate]
  show t.turn.sign * (f t.b t.c + f t.c t.a + f t.a t.b) = _
  ring

theorem flow_flip (hf : Alternating f) (t : Triangle) : t.flip.flow f = t.flow f := by
  unfold flow
  rw [turn_flip, Int.sign_neg]
  show -t.turn.sign * (f t.a t.c + f t.c t.b + f t.b t.a) = _
  rw [hf t.c t.a, hf t.b t.c, hf t.a t.b]
  ring

end

/-! ## crossings -/

/-- how the side from `q` to `r` crosses the ray from `p` -/
noncomputable def crossingAt (p : ℝ × ℝ) (q r : GridPoint) : ℤ := Plane.crossing p q.plane r.plane

theorem alternating_crossingAt (p : ℝ × ℝ) : Alternating (crossingAt p) :=
  fun q r => Plane.crossing_swap p q.plane r.plane

structure Counted (p : ℝ × ℝ) (t : Triangle) : Prop where
  inside : p ∈ interior t.region → t.flow (crossingAt p) = 1
  outside : p ∉ interior t.region → ¬ t.OnSide p → t.flow (crossingAt p) = 0
  nonneg : 0 ≤ t.flow (crossingAt p)

theorem counted_of_pos {p : ℝ × ℝ} {t : Triangle} (h : 0 < t.turn) : Counted p t := by
  have h' : 0 < Plane.turn t.a.plane t.b.plane t.c.plane := by
    rw [← GridPoint.cast_turn]
    exact Int.cast_pos.mpr h
  have w : Plane.Winds p t.a.plane t.b.plane t.c.plane := Plane.winds h'
  have e : t.flow (crossingAt p) = Plane.around p t.a.plane t.b.plane t.c.plane := flow_of_pos h
  have hin : p ∈ interior t.region ↔ _ := Plane.mem_interior_hull h'
  refine ⟨fun hp => ?_, fun hp hside => ?_, ?_⟩
  · obtain ⟨h1, h2, h3⟩ := hin.mp hp
    rw [e]
    exact w.inside h1 h2 h3
  · by_contra hne
    rw [e] at hne
    obtain ⟨h1, h2, h3⟩ := w.closed hne
    refine hp (hin.mpr ⟨h1.lt_of_ne' fun z => hside ⟨(t.a, t.b), by simp [sides], ?_⟩,
      h2.lt_of_ne' fun z => hside ⟨(t.b, t.c), by simp [sides], ?_⟩,
      h3.lt_of_ne' fun z => hside ⟨(t.c, t.a), by simp [sides], ?_⟩⟩)
    · exact Plane.mem_segment h' z h2 h3
    · exact Plane.mem_segment (by rwa [Plane.turn_rotate]) z h3 h1
    · exact Plane.mem_segment (by rwa [Plane.turn_rotate, Plane.turn_rotate]) z h1 h2
  · rw [e]
    exact w.nonneg

/-- **The crossings around a triangle count the points inside it.** -/
theorem counted (p : ℝ × ℝ) {t : Triangle} (h : t.turn ≠ 0) : Counted p t := by
  refine of_turn_pos (fun t ht => counted_of_pos ht) (fun t c => ?_) h
  have e := flow_flip (alternating_crossingAt p) t
  refine ⟨fun hp => ?_, fun hp hside => ?_, ?_⟩
  · rw [← e]
    exact c.inside (by rwa [region_flip])
  · rw [← e]
    exact c.outside (by rwa [region_flip]) (onSide_flip.not.mpr hside)
  · rw [← e]
    exact c.nonneg

/-! ## one side -/

/-- the side from `p` to `q` alone -/
def unit (p q u v : GridPoint) : ℤ :=
  (if (u, v) = (p, q) then 1 else 0) - (if (u, v) = (q, p) then 1 else 0)

theorem alternating_unit (p q : GridPoint) : Alternating (unit p q) := by
  intro u v
  have e1 : ((v, u) = (p, q)) = ((u, v) = (q, p)) := by
    simp only [Prod.mk.injEq, and_comm]
  have e2 : ((v, u) = (q, p)) = ((u, v) = (p, q)) := by
    simp only [Prod.mk.injEq, and_comm]
  unfold unit
  simp only [e1, e2]
  ring

theorem nodup_sides {t : Triangle} (h : t.turn ≠ 0) : t.sides.Nodup := by
  have hab : t.a ≠ t.b := by
    intro e
    apply h
    rw [turn, e, GridPoint.turn_self]
  have hbc : t.b ≠ t.c := by
    intro e
    apply h
    rw [turn, e, GridPoint.turn_right_end]
  simp only [sides, List.nodup_cons, List.mem_cons, Prod.mk.injEq, List.not_mem_nil, or_false,
    not_or, not_and, List.nodup_nil, and_true, not_false_eq_true]
  exact ⟨⟨fun e => absurd e hab, fun e e' => hbc (e'.trans e)⟩, fun e => absurd e hbc⟩

/-- a triangle to the left of the side counts `1`, one to the right `-1`, others `0` -/
theorem flow_unit {t : Triangle} (h : t.turn ≠ 0) (p q : GridPoint) :
    t.flow (unit p q) = (if t.LeftOf p q then 1 else 0) - (if t.LeftOf q p then 1 else 0) := by
  refine of_turn_pos (motive := fun t => t.flow (unit p q)
    = (if t.LeftOf p q then 1 else 0) - (if t.LeftOf q p then 1 else 0))
    (fun t ht => ?_) (fun t ih => ?_) h
  · have hc : ∀ e : GridPoint × GridPoint, (t.sides.count e : ℤ) = if e ∈ t.sides then 1 else 0 := by
      intro e
      rw [(nodup_sides ht.ne').count]
      split <;> rfl
    simp only [leftOf_of_pos ht]
    rw [← hc, ← hc, flow_of_pos ht]
    simp only [unit, sides, List.count_cons, List.count_nil, beq_iff_eq]
    push_cast
    ring
  · simpa only [flow_flip (alternating_unit p q), leftOf_flip] using ih

end Triangle

end TerrainPatches
