import Mathlib
import TerrainPatches.Quadtree

/-!
# What all leaves have in common

A leaf is reached from the whole patch by quarterings, so what the whole patch has and every
quarter inherits is true of all leaves (`leaf_of_leaves`).  For one, the rectangle of a leaf is as
high as it is wide (`even_of_mem_split`).
-/

namespace TerrainPatches

variable {α : Type} [Scalar α]

/-- the rectangle of the square is as high as it is wide -/
def Square.Even (s : Square α) : Prop := s.rect.shape.x = s.rect.shape.y

theorem Square.Even.quarter {s q : Square α} (h : s.Even) (hq : q ∈ s.quarters) : q.Even := by
  obtain ⟨r, hr, rfl⟩ := List.mem_map.mp hq
  show r.2.shape.x = r.2.shape.y
  rw [s.rect.shape_of_mem_quadrants r hr, Point2.dividedBy_x, Point2.dividedBy_y, h]

namespace Quadtree

variable {P : Square α → Prop}

theorem leaf_of_drain (hP : ∀ s, P s → ∀ q ∈ s.quarters, P q) {limit : Nat} {maxSize : α}
    {work : List (Square α × Nat)} {found leaves : List (Square α)}
    (h : drain limit maxSize work found = .ok leaves) (hwork : ∀ a ∈ work, P a.1)
    (hfound : ∀ s ∈ found, P s) : ∀ s ∈ leaves, P s := by
  fun_induction drain limit maxSize work found with
  | case1 found =>
    cases h
    intro s hs
    exact hfound s (List.mem_reverse.mp hs)
  | case2 s d rest found hd => cases h
  | case3 s d rest found hd hlarge ih =>
    refine ih h ?_ hfound
    intro a ha
    cases List.mem_append.mp ha with
    | inl ha =>
      obtain ⟨q, hq, rfl⟩ := List.mem_map.mp ha
      exact hP s (hwork (s, d) List.mem_cons_self) q hq
    | inr ha => exact hwork a (List.mem_cons_of_mem _ ha)
  | case4 s d rest found hd hsmall ih =>
    refine ih h (fun a ha => hwork a (List.mem_cons_of_mem _ ha)) ?_
    intro q hq
    cases List.mem_cons.mp hq with
    | inl hq => rw [hq]; exact hwork (s, d) List.mem_cons_self
    | inr hq => exact hfound q hq

theorem leaf_of_leaves (hP : ∀ s, P s → ∀ q ∈ s.quarters, P q) {log2 : α → α} {size maxSize : α}
    {center : Point2 α} {found : List (Square α)} (hwhole : P (.whole size center))
    (h : leaves log2 size center maxSize = .ok found) : ∀ s ∈ found, P s := by
  unfold leaves at h
  split at h
  · cases h
  · split at h
    · cases h
    · split at h
      · cases h
      · refine leaf_of_drain hP h ?_ (fun s hs => absurd hs List.not_mem_nil)
        intro a ha
        rw [List.mem_singleton.mp ha]
        exact hwhole

theorem even_of_mem_split {size maxSize : Float32} {center : Point2 Float32}
    {found : List (Square Float32)} (h : split size center maxSize = .ok found) :
    ∀ s ∈ found, s.Even :=
  leaf_of_leaves (fun _ hs _ hq => hs.quarter hq) rfl h

end Quadtree

end TerrainPatches
