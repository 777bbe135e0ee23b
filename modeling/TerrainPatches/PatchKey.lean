import TerrainPatches.FloatOrder
import TerrainPatches.Seams

/-!
# Keys: what a patch is known by

A built patch is known by its center, its level and its seams.  The vertices sampled for it
depend on the center and the level alone (`SampleKey`), so patches that differ only in their
seams can be made from one another.

A center is kept bit by bit: two keys are one only if their centers have the same patterns.  Keys
are ordered by center (`x`, then `y`, in the total order of patterns), then level, then the seams
as a word: this is the lexicographic order of `rank`.  All keys of one `SampleKey` are
therefore neighbours, and `SampleKey.last` is at or above each of them and below every key of a
greater `SampleKey`.
-/

namespace TerrainPatches

structure PatchKey where
  center : Point2 Pattern
  level : UInt8
  seams : Seams
deriving DecidableEq

structure SampleKey where
  center : Point2 Pattern
  level : UInt8
deriving DecidableEq

/-! ## samples -/

namespace SampleKey

def rank (k : SampleKey) : List Nat :=
  [k.center.x.rank, k.center.y.rank, k.level.toNat]

instance : Ord SampleKey := ⟨compareOn rank⟩

/-- the greatest key with this center and level -/
def last (k : SampleKey) : PatchKey := ⟨k.center, k.level, ⟨0xffffffff⟩⟩

theorem rank_injective {a b : SampleKey} (h : a.rank = b.rank) : a = b := by
  obtain ⟨⟨ax, ay⟩, al⟩ := a
  obtain ⟨⟨bx, b_y⟩, bl⟩ := b
  simp only [rank, List.cons.injEq, and_true, Pattern.rank_inj, UInt8.toNat_inj] at h
  obtain ⟨rfl, rfl, rfl⟩ := h
  rfl

instance : Std.TransOrd SampleKey := inferInstanceAs (Std.TransCmp (compareOn rank))

instance : Std.LawfulEqOrd SampleKey where
  compare_self {a} := (Std.ReflCmp.compare_self : compare a.rank a.rank = .eq)
  eq_of_compare {a b} h :=
    rank_injective (Std.LawfulEqCmp.eq_of_compare (show compare a.rank b.rank = .eq from h))

end SampleKey

/-! ## patches -/

namespace PatchKey

/-- the part of a key that determines the sampled vertices -/
def sample (k : PatchKey) : SampleKey := ⟨k.center, k.level⟩

def rank (k : PatchKey) : List Nat :=
  [k.center.x.rank, k.center.y.rank, k.level.toNat, k.seams.bits.toNat]

instance : Ord PatchKey := ⟨compareOn rank⟩

theorem rank_injective {a b : PatchKey} (h : a.rank = b.rank) : a = b := by
  obtain ⟨⟨ax, ay⟩, al, ⟨as⟩⟩ := a
  obtain ⟨⟨bx, b_y⟩, bl, ⟨bs⟩⟩ := b
  simp only [rank, List.cons.injEq, and_true, Pattern.rank_inj, UInt8.toNat_inj,
    UInt32.toNat_inj] at h
  obtain ⟨rfl, rfl, rfl, rfl⟩ := h
  rfl

instance : Std.TransOrd PatchKey := inferInstanceAs (Std.TransCmp (compareOn rank))

instance : Std.LawfulEqOrd PatchKey where
  compare_self {a} := (Std.ReflCmp.compare_self : compare a.rank a.rank = .eq)
  eq_of_compare {a b} h :=
    rank_injective (Std.LawfulEqCmp.eq_of_compare (show compare a.rank b.rank = .eq from h))

end PatchKey

/-! ## keys of one sample -/

namespace SampleKey

/-- whether `k` is a key with this center and level -/
def isSampleOf (s : SampleKey) (k : PatchKey) : Bool := decide (k.sample = s)

/-- the keys of this sample among keys in order, greatest first -/
def variants (s : SampleKey) (keys : List PatchKey) : List PatchKey :=
  (keys.filter fun k => (compare k s.last).isLE).reverse.takeWhile s.isSampleOf

@[simp] theorem sample_last (s : SampleKey) : s.last.sample = s := rfl

theorem isSampleOf_iff (s : SampleKey) (k : PatchKey) : s.isSampleOf k = true ↔ k.sample = s := by
  simp [isSampleOf]

end SampleKey

end TerrainPatches
