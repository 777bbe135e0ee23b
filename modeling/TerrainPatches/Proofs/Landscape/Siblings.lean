import TerrainPatches.Landscape
import TerrainPatches.Proofs.Cache.Order

/-!
# The search for a sibling

Keys are compared by their samples first and by their seams last (`compare_eq_then`), so whatever
lies between a key of a sample and the last key of that sample is of the sample too
(`sample_of_between`).  The greatest cached key that is not above the last one is therefore of the
sample whenever a key of it is cached, and is the one with the greatest seams then
(`search?_eq_some_iff`, `search?_eq_none_iff`).
-/

namespace TerrainPatches

open Std

namespace PatchKey

theorem compare_eq_then (a b : PatchKey) :
    compare a b = (compare a.sample b.sample).then
      (compare a.seams.bits.toNat b.seams.bits.toNat) := by
  show compare a.rank b.rank = (compare a.sample.rank b.sample.rank).then _
  simp only [rank, sample, SampleKey.rank, List.compare_cons_cons, List.compare_nil_nil,
    Ordering.then_assoc, Ordering.then_eq]

/-- a key is not above another one of its sample with the greatest seams -/
theorem le_last {s : SampleKey} {k : PatchKey} (h : k.sample = s) : (compare k s.last).isLE := by
  have hs : compare k.sample s = .eq := by rw [h]; exact ReflOrd.compare_self
  have hb := k.seams.bits.toNat_lt
  rw [compare_eq_then, SampleKey.sample_last, hs, Ordering.eq_then, Nat.isLE_compare]
  show k.seams.bits.toNat ≤ 4294967295
  omega

theorem sample_le {a b : PatchKey} (h : (compare a b).isLE) :
    (compare a.sample b.sample).isLE := by
  rw [compare_eq_then, Ordering.isLE_then_iff_or] at h
  cases h with
  | inl h => rw [h]; rfl
  | inr h => rw [h.1]; rfl

theorem sample_of_between {s : SampleKey} {a b : PatchKey} (ha : a.sample = s)
    (hab : (compare a b).isLE) (hb : (compare b s.last).isLE) : b.sample = s := by
  have lower := sample_le hab
  have upper := sample_le hb
  rw [ha] at lower
  rw [SampleKey.sample_last] at upper
  exact LawfulEqCmp.eq_of_compare (OrientedCmp.isLE_antisymm upper lower)

/-- the seams decide between keys of one sample -/
theorem compare_isLE_iff {a b : PatchKey} (h : a.sample = b.sample) :
    (compare a b).isLE ↔ a.seams.bits ≤ b.seams.bits := by
  have same : compare a.sample b.sample = .eq := by rw [h]; exact ReflOrd.compare_self
  rw [compare_eq_then, same, Ordering.eq_then, Nat.isLE_compare]
  exact UInt32.le_iff_toNat_le.symm

theorem eq_of_seams {a b : PatchKey} (h : a.sample = b.sample)
    (seams : a.seams.bits = b.seams.bits) : a = b := by
  obtain ⟨center, level, ⟨bits⟩⟩ := a
  obtain ⟨rfl, rfl⟩ := SampleKey.mk.inj h
  cases seams
  rfl

end PatchKey

/-! ## the search in a cache -/

namespace SampleKey

variable {ν : Type}

/-- the entry at the greatest key that is not above the last one of a sample, if it is one of the
sample -/
def search? (s : SampleKey) (c : ExpiringCache PatchKey ν) : Option (CacheEntry PatchKey ν) :=
  (c.lowerBound s.last).filter fun e => s.isSampleOf e.key

section
variable {s : SampleKey} {c : ExpiringCache PatchKey ν} {e : CacheEntry PatchKey ν}

theorem search?_eq_some (h : s.search? c = some e) :
    c.lowerBound s.last = some e ∧ e.key.sample = s := by
  obtain ⟨found, hs⟩ := Option.filter_eq_some_iff.mp h
  exact ⟨found, (s.isSampleOf_iff e.key).mp hs⟩

/-- an entry of the sample with the greatest seams is in the cache if any is -/
theorem exists_search? (ordered : c.Ordered) {f : CacheEntry PatchKey ν} (hf : f ∈ c.entries)
    (hs : f.key.sample = s) : ∃ e, s.search? c = some e := by
  have hle := PatchKey.le_last hs
  cases hb : c.lowerBound s.last with
  | none =>
    have none_le := ExpiringCache.lowerBound_eq_none_iff.mp hb
    exact absurd hle (none_le _ (ExpiringCache.mem_toList_of_mem hf))
  | some e =>
    obtain ⟨-, hel, greatest⟩ := ordered.lowerBound_spec hb
    -- what is found lies between the entry and the last key of the sample
    have between := greatest _ (ExpiringCache.mem_toList_of_mem hf) hle
    have hes := PatchKey.sample_of_between hs between hel
    refine ⟨e, ?_⟩
    show (c.lowerBound s.last).filter _ = some e
    rw [hb]
    exact Option.filter_eq_some_iff.mpr ⟨rfl, (s.isSampleOf_iff e.key).mpr hes⟩

theorem seams_le_of_search? (ordered : c.Ordered) (h : s.search? c = some e)
    {f : CacheEntry PatchKey ν} (hf : f ∈ c.entries) (hs : f.key.sample = s) :
    f.key.seams.bits ≤ e.key.seams.bits := by
  obtain ⟨found, hes⟩ := search?_eq_some h
  obtain ⟨-, -, greatest⟩ := ordered.lowerBound_spec found
  have hle := greatest _ (ExpiringCache.mem_toList_of_mem hf) (PatchKey.le_last hs)
  exact (PatchKey.compare_isLE_iff (hs.trans hes.symm)).mp hle

/-- the search ends at the entry of the sample with the greatest seams -/
theorem search?_eq_some_iff (ordered : c.Ordered) :
    s.search? c = some e ↔ e ∈ c.entries ∧ e.key.sample = s ∧
      ∀ f ∈ c.entries, f.key.sample = s → f.key.seams.bits ≤ e.key.seams.bits := by
  constructor
  · intro h
    obtain ⟨found, hs⟩ := search?_eq_some h
    exact ⟨ExpiringCache.mem_of_lowerBound found, hs, fun f => seams_le_of_search? ordered h⟩
  · intro h
    obtain ⟨he, hs, greatest⟩ := h
    obtain ⟨f, hf⟩ := exists_search? ordered he hs
    obtain ⟨found, hfs⟩ := search?_eq_some hf
    have hmem := ExpiringCache.mem_of_lowerBound found
    have below := seams_le_of_search? ordered hf he hs
    have above := greatest f hmem hfs
    have key : f.key = e.key :=
      PatchKey.eq_of_seams (hfs.trans hs.symm) (UInt32.le_antisymm above below)
    rw [hf, ordered.eq_of_key hmem he key]

/-- the search finds nothing only where there is nothing to find -/
theorem search?_eq_none_iff (ordered : c.Ordered) :
    s.search? c = none ↔ ∀ f ∈ c.entries, f.key.sample ≠ s := by
  constructor
  · intro hnone f hf hs
    obtain ⟨e, he⟩ := exists_search? ordered hf hs
    rw [hnone] at he
    cases he
  · intro hno
    cases h : s.search? c with
    | none => rfl
    | some e =>
      obtain ⟨found, hs⟩ := search?_eq_some h
      exact absurd hs (hno e (ExpiringCache.mem_of_lowerBound found))

end

end SampleKey

/-! ## siblings in a landscape -/

namespace Landscape

variable {l : Landscape} {s : SampleKey}

theorem sibling?_eq : l.sibling? s = (s.search? l.cache).map (·.object) := by
  unfold sibling? SampleKey.search?
  cases l.cache.lowerBound s.last with
  | none => rfl
  | some e =>
    show (if s.isSampleOf e.key = true then some e.object else none)
      = ((some e).filter fun e => s.isSampleOf e.key).map (·.object)
    by_cases hs : s.isSampleOf e.key = true
    · rw [if_pos hs, Option.filter_some, if_pos hs]
      rfl
    · rw [if_neg hs, Option.filter_some, if_neg hs]
      rfl

/-- a sibling is a cached patch of the sample -/
theorem mem_of_sibling? (h : l.cache.Ordered) {p : Shared Patch} (hp : l.sibling? s = some p) :
    ∃ k, (k, p) ∈ l.cache.toList ∧ k.sample = s := by
  rw [sibling?_eq] at hp
  obtain ⟨e, he, rfl⟩ := Option.map_eq_some_iff.mp hp
  obtain ⟨hmem, hs, -⟩ := (SampleKey.search?_eq_some_iff h).mp he
  exact ⟨e.key, ExpiringCache.mem_toList_of_mem hmem, hs⟩

/-- no sibling is found only if no patch of the sample is cached -/
theorem sibling?_eq_none_iff (h : l.cache.Ordered) :
    l.sibling? s = none ↔ ∀ a ∈ l.cache.toList, a.1.sample ≠ s := by
  rw [sibling?_eq, Option.map_eq_none_iff, SampleKey.search?_eq_none_iff h]
  show _ ↔ ∀ a ∈ l.cache.entries.map fun e => (e.key, e.object), a.1.sample ≠ s
  rw [List.forall_mem_map]

end Landscape

end TerrainPatches
