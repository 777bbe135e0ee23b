import TerrainPatches.Proofs.Quadtree.Leaves

/-!
# All leaves are on one level

The quarters of a square have one size, so a patch is quartered all over or not at all: its leaves
are the squares on one level, the least on which they are not too large (`Settles`).  The work list
has a result if and only if that level is within its limit (`drain_whole_iff`), and then the leaves
are all squares on the level, in depth-first order (`quarterings`).
-/

namespace TerrainPatches

variable {α : Type} [Scalar α]

/-- a size after some halvings -/
def halved : Nat → α → α
  | 0, size => size
  | j + 1, size => halved j (size / Scalar.two)

theorem halved_succ (j : Nat) (size : α) : halved (j + 1) size = halved j size / Scalar.two := by
  induction j generalizing size with
  | zero => rfl
  | succ j ih => exact ih (size / Scalar.two)

/-- `k` is the least number of halvings after which a size does not exceed the greatest one -/
def Settles (maxSize size : α) (k : Nat) : Prop := IsLeast {j | ¬ maxSize < halved j size} k

section
variable {maxSize size : α} {k : Nat}

theorem settles_zero (h : ¬ maxSize < size) : Settles maxSize size 0 :=
  ⟨h, fun _ _ => Nat.zero_le _⟩

theorem Settles.eq_zero (hk : Settles maxSize size k) (h : ¬ maxSize < size) : k = 0 :=
  Nat.le_zero.mp (hk.2 h)

theorem settles_succ_iff (h : maxSize < size) :
    Settles maxSize size (k + 1) ↔ Settles maxSize (size / Scalar.two) k := by
  constructor
  · intro hk
    refine ⟨hk.1, ?_⟩
    intro j hj
    exact Nat.le_of_succ_le_succ (hk.2 (show j + 1 ∈ {j | ¬ maxSize < halved j size} from hj))
  · intro hk
    refine ⟨hk.1, ?_⟩
    intro j hj
    cases j with
    | zero => exact absurd h hj
    | succ j => exact Nat.succ_le_succ (hk.2 hj)

theorem Settles.exists_pred (hk : Settles maxSize size k) (h : maxSize < size) :
    ∃ j, k = j + 1 ∧ Settles maxSize (size / Scalar.two) j := by
  cases k with
  | zero => exact absurd h hk.1
  | succ j => exact ⟨j, rfl, (settles_succ_iff h).mp hk⟩

end

namespace Quadtree

/-- the squares some quarterings down, in depth-first order -/
def quarterings : Nat → Square α → List (Square α)
  | 0, s => [s]
  | k + 1, s => s.quarters.flatMap (quarterings k)

theorem size_of_mem_quarters {s q : Square α} (h : q ∈ s.quarters) :
    q.size = s.size / Scalar.two := by
  obtain ⟨r, -, rfl⟩ := List.mem_map.mp h
  rfl

theorem size_of_mem_quarterings {k : Nat} {s q : Square α} (h : q ∈ quarterings k s) :
    q.size = halved k s.size := by
  induction k generalizing s with
  | zero =>
    rw [List.mem_singleton.mp h]
    rfl
  | succ k ih =>
    obtain ⟨r, hr, hq⟩ := List.mem_flatMap.mp h
    rw [ih hq, size_of_mem_quarters hr]
    rfl

theorem length_quarterings (k : Nat) (s : Square α) : (quarterings k s).length = 4 ^ k := by
  induction k generalizing s with
  | zero => rfl
  | succ k ih =>
    show (s.quarters.flatMap (quarterings k)).length = 4 ^ (k + 1)
    rw [List.length_flatMap, List.map_congr_left fun q _ => ih q, List.map_const',
      List.sum_replicate, s.length_quarters, smul_eq_mul, Nat.pow_succ, Nat.mul_comm]

/-! ## the tree and the work list -/

section
variable {maxSize : α} {limit : Nat}

theorem tree_eq_quarterings {k depth : Nat} {s : Square α} (h : Settles maxSize s.size k)
    (hk : k ≤ depth) : tree maxSize depth s = quarterings k s := by
  induction depth generalizing k s with
  | zero =>
    rw [Nat.le_zero.mp hk]
    rfl
  | succ depth ih =>
    rw [tree_succ]
    by_cases hlarge : maxSize < s.size
    · obtain ⟨j, rfl, hj⟩ := h.exists_pred hlarge
      rw [if_pos hlarge]
      refine List.flatMap_congr ?_
      intro q hq
      rw [← size_of_mem_quarters hq] at hj
      exact ih hj (by omega)
    · rw [if_neg hlarge, h.eq_zero hlarge]
      rfl

/-- the work of a list that is emptied is settled within the limit, and its squares are replaced by
their trees -/
theorem settled_of_drain {work : List (Square α × Nat)} {found leaves : List (Square α)}
    (h : drain limit maxSize work found = .ok leaves) :
    (∀ a ∈ work, ∃ k, Settles maxSize a.1.size k ∧ a.2 + k ≤ limit) ∧
      leaves = found.reverse ++ work.flatMap fun a => tree maxSize (limit - a.2) a.1 := by
  fun_induction drain limit maxSize work found with
  | case1 found =>
    cases h
    exact ⟨fun a ha => absurd ha List.not_mem_nil, (List.append_nil _).symm⟩
  | case2 s d rest found hd => cases h
  | case3 s d rest found hd hlarge ih =>
    obtain ⟨hsettled, hleaves⟩ := ih h
    -- the first quarter speaks for all four
    obtain ⟨k, hk, hlimit⟩ := hsettled _ (List.mem_append_left rest (List.mem_map.mpr
      ⟨_, List.mem_cons_self, rfl⟩))
    refine ⟨?_, ?_⟩
    · intro a ha
      cases List.mem_cons.mp ha with
      | inl ha =>
        rw [ha]
        exact ⟨k + 1, (settles_succ_iff hlarge).mpr hk, by omega⟩
      | inr ha => exact hsettled a (List.mem_append_right _ ha)
    · have below : limit - d = limit - (d + 1) + 1 := by omega
      rw [hleaves, List.flatMap_cons, List.flatMap_append, List.flatMap_map, below, tree_succ,
        if_pos hlarge]
  | case4 s d rest found hd hsmall ih =>
    obtain ⟨hsettled, hleaves⟩ := ih h
    refine ⟨?_, ?_⟩
    · intro a ha
      cases List.mem_cons.mp ha with
      | inl ha =>
        rw [ha]
        exact ⟨0, settles_zero hsmall, by omega⟩
      | inr ha => exact hsettled a ha
    · rw [hleaves, List.flatMap_cons, tree_eq_quarterings (settles_zero hsmall) (Nat.zero_le _),
        List.reverse_cons, List.append_assoc]
      rfl

/-- work that settles within the limit is emptied -/
theorem drain_of_settled {work : List (Square α × Nat)} {found : List (Square α)}
    (h : ∀ a ∈ work, ∃ k, Settles maxSize a.1.size k ∧ a.2 + k ≤ limit) :
    ∃ leaves, drain limit maxSize work found = .ok leaves := by
  fun_induction drain limit maxSize work found with
  | case1 found => exact ⟨_, rfl⟩
  | case2 s d rest found hd =>
    obtain ⟨k, -, hlimit⟩ := h _ List.mem_cons_self
    omega
  | case3 s d rest found hd hlarge ih =>
    obtain ⟨k, hk, hlimit⟩ := h _ List.mem_cons_self
    obtain ⟨j, rfl, hj⟩ := hk.exists_pred hlarge
    refine ih ?_
    intro a ha
    cases List.mem_append.mp ha with
    | inl ha =>
      obtain ⟨q, hq, rfl⟩ := List.mem_map.mp ha
      rw [← size_of_mem_quarters hq] at hj
      exact ⟨j, hj, by omega⟩
    | inr ha => exact h a (List.mem_cons_of_mem _ ha)
  | case4 s d rest found hd hsmall ih => exact ih fun a ha => h a (List.mem_cons_of_mem _ ha)

/-- **The work list finds the squares on the least level that is fine enough, if its limit allows
it.** -/
theorem drain_whole_iff {s : Square α} {leaves : List (Square α)} :
    drain limit maxSize [(s, 0)] [] = .ok leaves ↔
      ∃ k ≤ limit, Settles maxSize s.size k ∧ leaves = quarterings k s := by
  constructor
  · intro h
    obtain ⟨hsettled, hleaves⟩ := settled_of_drain h
    obtain ⟨k, hk, hlimit⟩ := hsettled _ List.mem_cons_self
    rw [Nat.zero_add] at hlimit
    refine ⟨k, hlimit, hk, ?_⟩
    rw [hleaves, ← tree_eq_quarterings hk hlimit]
    exact List.append_nil _
  · rintro ⟨k, hlimit, hk, rfl⟩
    obtain ⟨leaves, h⟩ : ∃ leaves, drain limit maxSize [(s, 0)] [] = .ok leaves := by
      refine drain_of_settled ?_
      intro a ha
      rw [List.mem_singleton.mp ha]
      exact ⟨k, hk, by omega⟩
    obtain ⟨-, hleaves⟩ := settled_of_drain h
    rw [h, hleaves, ← tree_eq_quarterings hk hlimit]
    exact congrArg _ (List.append_nil _)

end

/-! ## the whole patch -/

theorem leaves_eq_ok_iff {log2 : α → α} {size maxSize : α} {center : Point2 α}
    {found : List (Square α)} :
    leaves log2 size center maxSize = .ok found ↔
      Scalar.zero < maxSize ∧ Scalar.finite size = true ∧
        ∃ limit, depthLimit log2 (size / maxSize) = .ok limit ∧
          ∃ k ≤ limit, Settles maxSize size k ∧
            found = quarterings k (.whole size center) := by
  unfold leaves
  by_cases hpos : (Scalar.zero : α) < maxSize
  · cases hfinite : Scalar.finite size with
    | false => simp [hpos]
    | true =>
      cases hlimit : depthLimit log2 (size / maxSize) with
      | error e => simp [hpos]
      | ok limit =>
        simp only [hpos, not_true, if_false, Bool.not_true, Bool.false_eq_true, true_and,
          Except.ok.injEq, exists_eq_left']
        exact drain_whole_iff
  · simp [hpos]

/-- all leaves are on one level -/
theorem level_of_leaves {log2 : α → α} {size maxSize : α} {center : Point2 α}
    {found : List (Square α)} (h : leaves log2 size center maxSize = .ok found) :
    ∃ k, Settles maxSize size k ∧ found = quarterings k (.whole size center) := by
  obtain ⟨-, -, limit, -, k, -, hk⟩ := leaves_eq_ok_iff.mp h
  exact ⟨k, hk⟩

end Quadtree

end TerrainPatches
