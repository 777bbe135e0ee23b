import TerrainPatches.Proofs.Mesh.Reading
import TerrainPatches.Proofs.Mesh.Stride

/-!
# Meshes in machine words

The corners of a mesh are computed in words of 64 bits, and their places are stored in 32 bits or
in 16.  Here every step of this is checked: a `Word` is there only if no step that led to it went
below zero or beyond 64 bits, and a place is stored only if it fits.  One missing number, also one
that is only compared, and there is no mesh.

* `segment?_eq`   the corners of one segment of a side stay in range;
* `place?_eq`     so does the place of a vertex, and it fits into 32 bits;
* `indices?_eq`   up to `2 ^ 16` vertices per edge, checking changes nothing.
-/

namespace TerrainPatches

/-! ## checked numbers -/

/-- a number of 64 bits, if every step that led to it stayed in range -/
structure Word where
  value : Option Nat

namespace Word

def of (a : Nat) : Word := ⟨some a⟩

instance : Coe Nat Word := ⟨of⟩
instance (k : Nat) : OfNat Word k := ⟨of k⟩

/-- the outcome of a step from two numbers that are there, if the step is in range -/
def step (inRange : Nat → Nat → Bool) (f : Nat → Nat → Nat) (v w : Word) : Word where
  value := do
    let a ← v.value
    let b ← w.value
    if inRange a b then some (f a b) else none

instance : Add Word := ⟨step (fun a b => decide (a + b < 2 ^ 64)) (· + ·)⟩
instance : Sub Word := ⟨step (fun a b => decide (b ≤ a)) (· - ·)⟩
instance : Mul Word := ⟨step (fun a b => decide (a * b < 2 ^ 64)) (· * ·)⟩

/-- whether two numbers are the same, if both are there -/
def same (v w : Word) : Option Bool := do return decide ((← v.value) = (← w.value))

theorem zero_eq : (0 : Word) = of 0 := rfl
theorem one_eq : (1 : Word) = of 1 := rfl
theorem two_eq : (2 : Word) = of 2 := rfl
theorem three_eq : (3 : Word) = of 3 := rfl

section
variable {a b : Nat}

theorem of_add_of (h : a + b < 2 ^ 64) : of a + of b = of (a + b) :=
  congrArg Word.mk (if_pos (decide_eq_true h))

theorem of_sub_of (h : b ≤ a) : of a - of b = of (a - b) :=
  congrArg Word.mk (if_pos (decide_eq_true h))

theorem of_mul_of (h : a * b < 2 ^ 64) : of a * of b = of (a * b) :=
  congrArg Word.mk (if_pos (decide_eq_true h))

theorem value_of : (of a).value = some a := rfl

theorem same_of : (of a).same (of b) = some (decide (a = b)) := rfl

end

end Word

/-! ## lists of which nothing is missing -/

section
variable {α β : Type} {l : List α}

theorem mapM_eq_some {f : α → Option β} {g : α → β} (h : ∀ a ∈ l, f a = some (g a)) :
    l.mapM f = some (l.map g) := by
  induction l with
  | nil => rfl
  | cons a l ih =>
    rw [List.mapM_cons, h a List.mem_cons_self, ih fun b hb => h b (List.mem_cons_of_mem _ hb)]
    rfl

theorem flatMapM_eq_some {f : α → Option (List β)} {g : α → List β}
    (h : ∀ a ∈ l, f a = some (g a)) : l.flatMapM f = some (l.flatMap g) := by
  induction l with
  | nil => rfl
  | cons a l ih =>
    rw [List.flatMapM_cons, h a List.mem_cons_self, ih fun b hb => h b (List.mem_cons_of_mem _ hb)]
    rfl

end

namespace Mesh

/-! ## checked triangles -/

def triangle? (ux uy vx vy wx wy : Word) : Option Triangle := do
  return .of (← ux.value) (← uy.value) (← vx.value) (← vy.value) (← wx.value) (← wy.value)

def cell? (x y : Nat) : Option (List Triangle) := do
  let sum ← (y + (x % 2 : Nat) : Word).value
  if sum % 2 = 1 then
    return [← triangle? (x + 1) y (x + 1) (y + 1) x (y + 1), ← triangle? x y (x + 1) y x (y + 1)]
  else
    return [← triangle? x y (x + 1) (y + 1) x (y + 1), ← triangle? x y (x + 1) y (x + 1) (y + 1)]

/-- all cells with both coordinates from `lo` up to but not including `hi`, if there are any -/
def block? (lo hi : Nat) : Option (List Triangle) :=
  (List.range' lo (hi - lo)).flatMapM fun y => (List.range' lo (hi - lo)).flatMapM fun x => cell? x y

/-- a stride is found from a power of two, which must be a word; from there on it is only halved -/
def stride? (n : Nat) (delta : UInt8) : Option Nat := do
  let intervals ← (n - 1 : Word).value
  if min delta.toNat 15 < 64 then some (stride intervals delta) else none

/-- the triangle on a segment of a side -/
def base? (last s p : Nat) : Side → Option Triangle
  | .south => do
    if ← Word.same (p + s) last then triangle? p 0 (p + s) 0 (p + s - 1) (0 + 1)
    else triangle? p 0 (p + s) 0 (p + s) (0 + 1)
  | .north =>
    if p = 0 then triangle? (p + s) last p last (p + 1) (last - 1)
    else triangle? (p + s) last p last p (last - 1)
  | .west => do
    if ← Word.same (p + s) last then triangle? 0 (p + s) 0 p (0 + 1) (p + s - 1)
    else triangle? 0 (p + s) 0 p (0 + 1) (p + s)
  | .east =>
    if p = 0 then triangle? last p last (p + s) (last - 1) (p + 1)
    else triangle? last p last (p + s) (last - 1) p

/-- the triangle of its fan on one interval of the inner row -/
def blade? (last s p : Nat) : Side → Nat → Option Triangle
  | .south, i => triangle? p 0 (p + i + 1) (0 + 1) (p + i) (0 + 1)
  | .north, i => triangle? (p + i) (last - 1) (p + i + 1) (last - 1) (p + s) last
  | .west, i => triangle? 0 p (0 + 1) (p + i) (0 + 1) (p + i + 1)
  | .east, i => triangle? (last - 1) (p + i + 1) last (p + s) (last - 1) (p + i)

/-- one segment of a side: its base, and its fan but for the two intervals next to the corners -/
def segment? (side : Side) (last s p : Nat) : Option (List Triangle) := do
  let base ← base? last s p side
  let fan ← (List.range s).flatMapM fun i : Nat => do
    if (← Word.same (p + i) 0) || (← Word.same (p + i) (last - 1)) then return []
    else return [← blade? last s p side i]
  return base :: fan

/-- the segments of a side, which must have a length for the loop over them to go on -/
def strip? (n last : Nat) (seams : Seams) (side : Side) : Option (List Triangle) := do
  let s ← stride? n (seams.delta side)
  if s = 0 then none else (starts last s).flatMapM (segment? side last s)

def triangles? (n : Nat) (seams : Seams) : Option (List Triangle) := do
  let last ← (n - 1 : Word).value
  if rings n seams then
    return (← block? 1 (← (n - 2 : Word).value)) ++ (← strip? n last seams .south) ++
      (← strip? n last seams .north) ++ (← strip? n last seams .west) ++ (← strip? n last seams .east)
  else block? 0 last

/-! ## checked storage -/

/-- the corners of some triangles, in drawing order -/
def vertices (ts : List Triangle) : List GridPoint := ts.flatMap Triangle.corners

def place? (n : Nat) (p : GridPoint) : Option UInt32 := do
  let k ← (p.x * n + p.y : Word).value
  if k < 2 ^ 32 then some (UInt32.ofNat k) else none

def short? (k : UInt32) : Option UInt16 := if k.toNat < 65536 then some k.toUInt16 else none

/-- the index list, with room for two triangles per cell set aside before it is made -/
def indices? (n : Nat) (seams : Seams) : Option Indices :=
  if n < 2 then some (.short [])
  else do
    let _room ← ((n - 1) * (n - 1) * 2 * 3 : Word).value
    let places ← (vertices (← triangles? n seams)).mapM (place? n)
    let count ← (n * n : Word).value
    if count ≤ 65536 then return .short (← places.mapM short?) else return .wide places

/-! ## cells -/

theorem triangle?_of (ux uy vx vy wx wy : Nat) :
    triangle? (.of ux) (.of uy) (.of vx) (.of vy) (.of wx) (.of wy)
      = some (.of ux uy vx vy wx wy) := rfl

theorem cell?_eq {x y : Nat} (hx : x < 65536) (hy : y < 65536) : cell? x y = some (cell x y) := by
  have h2 : x % 2 < 2 := Nat.mod_lt x two_pos
  unfold cell? cell falling
  simp (disch := omega) only [Word.one_eq, Word.of_add_of, Word.value_of, triangle?_of, beq_iff_eq]
  by_cases h : (y + x % 2) % 2 = 1
  · rw [if_pos h]
    exact if_pos h
  · rw [if_neg h]
    exact if_neg h

theorem block?_eq {lo k : Nat} (h : lo + k < 65536) : block? lo (lo + k) = some (block lo k) := by
  unfold block? block
  rw [Nat.add_sub_cancel_left]
  refine flatMapM_eq_some fun y hy => flatMapM_eq_some fun x hx => ?_
  rw [List.mem_range'_1] at hx hy
  exact cell?_eq (by omega) (by omega)

/-! ## strips -/

theorem map_fanOffsets (last s p : Nat) (f : Nat → Triangle) :
    (fanOffsets last s p).map f = (List.range s).flatMap fun i =>
      if p + i = 0 ∨ p + i = last - 1 then [] else [f i] := by
  unfold fanOffsets
  induction List.range s with
  | nil => rfl
  | cons i l ih =>
    rw [List.filter_cons, List.flatMap_cons, ← ih]
    by_cases h : p + i = 0 ∨ p + i = last - 1
    · have out : (p + i != 0 && p + i != last - 1) = false := by
        simp only [Bool.and_eq_false_iff, bne_eq_false_iff_eq]
        exact h
      rw [out, if_pos h]
      rfl
    · have kept : (p + i != 0 && p + i != last - 1) = true := by
        simp only [Bool.and_eq_true, bne_iff_ne]
        exact not_or.mp h
      rw [kept, if_neg h]
      rfl

section
variable {last s p : Nat} (hl : 2 ≤ last) (hn : last < 65536) (hp : p + s ≤ last)
include hl hn hp

theorem base?_eq (hs : 0 < s) (side : Side) :
    base? last s p side = some (listBase side (base last side s p)) := by
  have lower : inner last p = if p = 0 then p + 1 else p := inner_start (by omega)
  have upper : inner last (p + s) = if p + s = last then p + s - 1 else p + s :=
    inner_end hl hs hp
  cases side
  case north | east =>
    rw [base, tip, lower]
    simp (disch := omega) only [base?, Word.one_eq, Word.of_add_of, Word.of_sub_of, triangle?_of]
    split <;> rfl
  case south | west =>
    rw [base, tip, upper]
    simp (disch := omega) only [base?, Word.zero_eq, Word.one_eq, Word.of_add_of, Word.of_sub_of,
      Word.same_of, triangle?_of, Option.bind_eq_bind, Option.bind_some, decide_eq_true_eq]
    split <;> rfl

theorem blade?_eq (side : Side) {i : Nat} (hi : i < s) :
    blade? last s p side i = some (listBlade side (blade last side s p i)) := by
  cases side <;>
    simp (disch := omega) only [blade?, Word.zero_eq, Word.one_eq, Word.of_add_of, Word.of_sub_of,
      triangle?_of] <;> rfl

theorem segment?_eq (hs : 0 < s) (side : Side) :
    segment? side last s p = some (segment side last s p) := by
  have fan : ((List.range s).flatMapM fun i : Nat => do
      if (← Word.same (p + i) 0) || (← Word.same (p + i) (last - 1)) then return []
      else return [← blade? last s p side i])
        = some ((fanOffsets last s p).map fun i => listBlade side (blade last side s p i)) := by
    rw [map_fanOffsets]
    refine flatMapM_eq_some fun i hi => ?_
    have hi := List.mem_range.mp hi
    simp (disch := omega) only [Word.zero_eq, Word.one_eq, Word.of_add_of, Word.of_sub_of,
      Word.same_of, blade?_eq hl hn hp side hi, Option.bind_eq_bind, Option.bind_some,
      Bool.or_eq_true, decide_eq_true_eq]
    split <;> rfl
  rw [segment?, base?_eq hl hn hp hs, fan, segment_eq hl hs hp]
  rfl

end

theorem stride?_eq {n : Nat} (hn : 1 ≤ n) (delta : UInt8) :
    stride? n delta = some (stride (n - 1) delta) := by
  unfold stride?
  rw [Word.one_eq, Word.of_sub_of hn]
  exact if_pos (by omega)

theorem strip?_eq {n : Nat} (h3 : 3 ≤ n) (hn : n ≤ 65536) (seams : Seams) (side : Side) :
    strip? n (n - 1) seams side = some (strip (n - 1) seams side) := by
  have hs := stride_pos (n - 1) (seams.delta side)
  unfold strip? strip
  rw [stride?_eq (by omega), Option.bind_eq_bind, Option.bind_some, if_neg hs.ne']
  exact flatMapM_eq_some fun p hp => segment?_eq (by omega) (by omega) (starts_le hp) hs side

/-! ## the whole mesh -/

theorem triangles?_eq {n : Nat} (h2 : 2 ≤ n) (hn : n ≤ 65536) (seams : Seams) :
    triangles? n seams = some (triangles n seams) := by
  unfold triangles?
  rw [Word.one_eq, Word.of_sub_of (by omega), Word.value_of]
  cases hr : rings n seams with
  | false =>
    rw [triangles_of_not_rings h2 hr, ← block?_eq (by omega), Nat.zero_add]
    rfl
  | true =>
    have h3 := three_le_of_rings hr
    have cells : block? 1 (n - 2) = some (block 1 (n - 3)) := by
      rw [show n - 2 = 1 + (n - 3) by omega]
      exact block?_eq (by omega)
    rw [triangles_of_rings hr, Word.two_eq, Word.of_sub_of h2]
    simp only [Word.value_of, Option.bind_eq_bind, Option.bind_some, if_true, cells,
      strip?_eq h3 hn]
    rfl

theorem place?_eq {n : Nat} (hn : n ≤ 65536) {p : GridPoint} (hx : p.x < n) (hy : p.y < n) :
    place? n p = some (place n p) := by
  have total : p.x * n + p.y < 2 ^ 32 :=
    calc p.x * n + p.y < n * n := place_lt hx hy
      _ ≤ 65536 * 65536 := Nat.mul_le_mul hn hn
  have product : p.x * n < 2 ^ 64 := by omega
  unfold place? place
  rw [Word.of_mul_of product, Word.of_add_of (by omega), Word.value_of]
  exact if_pos total

/-- with one vertex more along an edge, the last place does not fit into 32 bits -/
example : place? 65537 ⟨65536, 65536⟩ = none := by
  decide

theorem short?_eq {k : UInt32} (h : k.toNat < 65536) : short? k = some k.toUInt16 := if_pos h

theorem places_eq (n : Nat) (ts : List Triangle) : places n ts = (vertices ts).map (place n) := by
  rw [places, vertices, List.map_flatMap]

theorem vertices_lt {n : Nat} (h2 : 2 ≤ n) (seams : Seams) :
    ∀ p ∈ vertices (triangles n seams), p.x < n ∧ p.y < n := by
  intro p hp
  obtain ⟨t, ht, hp⟩ := List.mem_flatMap.mp hp
  exact triangles_lt h2 seams t ht p hp

/-- **No number on the way to an index list leaves its range.** -/
theorem indices?_eq {n : Nat} (hn : n ≤ 65536) (seams : Seams) :
    indices? n seams = some (indices n seams) := by
  unfold indices?
  by_cases h : n < 2
  · have small : n * n ≤ 65536 := by
      have := Nat.mul_le_mul (Nat.le_of_lt_succ h) (Nat.le_of_lt_succ h)
      omega
    rw [if_pos h, indices, triangles_of_lt h]
    exact congrArg some (if_pos small).symm
  · have h2 : 2 ≤ n := not_lt.mp h
    have room : (n - 1) * (n - 1) ≤ 65535 * 65535 := Nat.mul_le_mul (by omega) (by omega)
    have count : n * n ≤ 65536 * 65536 := Nat.mul_le_mul hn hn
    have stored : (vertices (triangles n seams)).mapM (place? n)
        = some (places n (triangles n seams)) := by
      rw [places_eq]
      refine mapM_eq_some fun p hp => ?_
      obtain ⟨hx, hy⟩ := vertices_lt h2 seams p hp
      exact place?_eq hn hx hy
    rw [if_neg h]
    simp (disch := omega) only [Word.one_eq, Word.two_eq, Word.three_eq, Word.of_sub_of,
      Word.of_mul_of, Word.value_of, triangles?_eq h2 hn, stored, Option.bind_eq_bind,
      Option.bind_some]
    unfold indices Indices.ofList
    by_cases small : n * n ≤ 65536
    · rw [if_pos small, if_pos small, mapM_eq_some fun k hk => ?_]
      · rfl
      · rw [← toList_indices h2 hn] at hk
        exact short?_eq ((lt_of_mem_indices hn hk).trans_le small)
    · rw [if_neg small, if_neg small]
      rfl

end Mesh

end TerrainPatches
