import TerrainPatches.Proofs.Mesh.Winding

/-!
# Reading an index list back

An index list draws triangles: each three of its places are the corners of one, and the place `k`
in a grid with `n` vertices per edge is the grid point `(k / n, k % n)`.  Up to `2 ^ 16` vertices
per edge nothing is lost in the narrow words in which the places are stored, so an index list
draws exactly the triangles that it was made from (`drawn_indices`).
-/

namespace TerrainPatches

/-- each three points are a triangle -/
def triples : List GridPoint → List Triangle
  | a :: b :: c :: rest => ⟨a, b, c⟩ :: triples rest
  | _ => []

namespace Indices

/-- the grid point at a place of a grid with `n` vertices per edge -/
def pointAt (n : Nat) (k : UInt32) : GridPoint := ⟨k.toNat / n, k.toNat % n⟩

/-- the triangles that the list draws over a grid with `n` vertices per edge -/
def drawn (n : Nat) (i : Indices) : List Triangle := triples (i.toList.map (pointAt n))

theorem toList_ofList {l : List UInt32} {vertices : Nat} (h : ∀ k ∈ l, k.toNat < vertices) :
    (Indices.ofList l vertices).toList = l := by
  unfold Indices.ofList
  split
  · next hv =>
    show (l.map UInt32.toUInt16).map UInt16.toUInt32 = l
    rw [List.map_map]
    refine (List.map_congr_left fun k hk => ?_).trans (List.map_id l)
    apply UInt32.toNat.inj
    show (UInt16.toUInt32 (UInt32.toUInt16 k)).toNat = k.toNat
    rw [UInt16.toNat_toUInt32, UInt32.toNat_toUInt16]
    exact Nat.mod_eq_of_lt ((h k hk).trans_le hv)
  · rfl

theorem length_ofList (l : List UInt32) (vertices : Nat) : (ofList l vertices).length = l.length := by
  unfold ofList
  split
  · exact List.length_map _
  · rfl

end Indices

namespace Mesh

theorem length_indices (n : Nat) (seams : Seams) :
    (indices n seams).length = 3 * (triangles n seams).length := by
  rw [indices, Indices.length_ofList, length_places]

section
variable {n : Nat} {p : GridPoint}

theorem place_lt (hx : p.x < n) (hy : p.y < n) : p.x * n + p.y < n * n :=
  calc p.x * n + p.y < p.x * n + n := Nat.add_lt_add_left hy _
    _ = (p.x + 1) * n := (Nat.succ_mul _ _).symm
    _ ≤ n * n := Nat.mul_le_mul_right n hx

theorem toNat_place (hn : n ≤ 65536) (hx : p.x < n) (hy : p.y < n) :
    (place n p).toNat = p.x * n + p.y :=
  UInt32.toNat_ofNat_of_lt ((place_lt hx hy).trans_le (Nat.mul_le_mul hn hn))

theorem pointAt_place (hn : n ≤ 65536) (hx : p.x < n) (hy : p.y < n) :
    Indices.pointAt n (place n p) = p := by
  have h0 : 0 < n := by omega
  have ex : (p.x * n + p.y) / n = p.x := by
    rw [Nat.mul_comm, Nat.mul_add_div h0, Nat.div_eq_of_lt hy, Nat.add_zero]
  have ey : (p.x * n + p.y) % n = p.y := by
    rw [Nat.mul_comm, Nat.mul_add_mod, Nat.mod_eq_of_lt hy]
  rw [Indices.pointAt, toNat_place hn hx hy, ex, ey]

end

section
variable {n : Nat} {ts : List Triangle}

theorem mem_places {k : UInt32} : k ∈ places n ts ↔ ∃ t ∈ ts, ∃ p ∈ t.corners, place n p = k := by
  simp only [places, List.mem_flatMap, List.mem_map]

theorem triples_places (hn : n ≤ 65536) (h : ∀ t ∈ ts, ∀ p ∈ t.corners, p.x < n ∧ p.y < n) :
    triples ((places n ts).map (Indices.pointAt n)) = ts := by
  induction ts with
  | nil => rfl
  | cons t ts ih =>
    have ht := h t (List.mem_cons_self ..)
    have e : ∀ p ∈ t.corners, Indices.pointAt n (place n p) = p := fun p hp =>
      pointAt_place hn (ht p hp).1 (ht p hp).2
    show ⟨Indices.pointAt n (place n t.a), Indices.pointAt n (place n t.b),
      Indices.pointAt n (place n t.c)⟩ :: triples ((places n ts).map (Indices.pointAt n)) = t :: ts
    rw [e t.a (by simp [Triangle.corners]), e t.b (by simp [Triangle.corners]),
      e t.c (by simp [Triangle.corners]), ih fun t' ht' => h t' (List.mem_cons_of_mem _ ht')]

end

section
variable {n : Nat} (h2 : 2 ≤ n) (hn : n ≤ 65536) (seams : Seams)
include h2

theorem triangles_lt : ∀ t ∈ triangles n seams, ∀ p ∈ t.corners, p.x < n ∧ p.y < n := by
  intro t ht p hp
  have := triangles_within h2 t ht p hp
  omega

include hn

theorem toList_indices : (indices n seams).toList = places n (triangles n seams) := by
  refine Indices.toList_ofList fun k hk => ?_
  obtain ⟨t, ht, p, hp, rfl⟩ := mem_places.mp hk
  obtain ⟨hx, hy⟩ := triangles_lt h2 seams t ht p hp
  rw [toNat_place hn hx hy]
  exact place_lt hx hy

/-- **An index list draws the triangles that it was made from.** -/
theorem drawn_indices : (indices n seams).drawn n = triangles n seams := by
  rw [Indices.drawn, toList_indices h2 hn, triples_places hn (triangles_lt h2 seams)]

theorem mem_toList_indices {k : UInt32} : k ∈ (indices n seams).toList ↔
    ∃ t ∈ triangles n seams, ∃ p ∈ t.corners, place n p = k := by
  rw [toList_indices h2 hn, mem_places]

end

/-- every place in an index list is that of a vertex; with fewer than two vertices along an edge
there is none -/
theorem lt_of_mem_indices {n : Nat} (hn : n ≤ 65536) {seams : Seams} {k : UInt32}
    (hk : k ∈ (indices n seams).toList) : k.toNat < n * n := by
  by_cases h2 : 2 ≤ n
  · obtain ⟨t, ht, p, hp, rfl⟩ := (mem_toList_indices h2 hn seams).mp hk
    obtain ⟨hx, hy⟩ := triangles_lt h2 seams t ht p hp
    rw [toNat_place hn hx hy]
    exact place_lt hx hy
  · have none : (indices n seams).toList = [] := by
      rw [indices, triangles_of_lt (by omega), places_nil,
        Indices.toList_ofList fun _ h => absurd h List.not_mem_nil]
    rw [none] at hk
    exact absurd hk List.not_mem_nil

end Mesh

end TerrainPatches
