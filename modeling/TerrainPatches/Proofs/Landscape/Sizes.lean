import TerrainPatches.Proofs.Landscape.Sharing

/-!
# The size of a patch that was asked for

A key has no size in it.  A patch that is built has the size that was asked for, sampled or copied,
and a cached patch is given as it is: it has the size of an earlier request with its key, which may
be another one (`other_size_of_get`).  In either case its buffers are those of its own size.
`size_of_get` says all of this for every request after any run.
-/

namespace TerrainPatches

namespace GridBuffers

theorem resolution_of_findIndex? {b : GridBuffers} {n : Nat} {e : UInt16} {s : Shared IndexBuffer}
    (h : b.findIndex? n e = some s) : s.val.resolution = n := by
  have hs := List.find?_some h
  rw [Bool.and_eq_true, beq_iff_eq] at hs
  exact hs.1

end GridBuffers

namespace Landscape

variable {l l' : Landscape}

theorem size_of_miss {r : PatchRequest} {now : Nat} {p : Shared Patch}
    (h : l.miss r now = .ok (p, l')) : p.val.size = r.size := by
  obtain ⟨patch, l₁, hbuild, rfl, -⟩ := miss_eq_ok h
  exact (build_key hbuild).2

/-- what is cached has been asked for, with the size that it has -/
def Requested (rs : List PatchRequest) (l : Landscape) : Prop :=
  ∀ ⦃k p⦄, (k, p) ∈ l.cache.toList → ∃ r ∈ rs, r.key = k ∧ p.val.size = r.size

theorem requested_of_nothing {rs : List PatchRequest} (h : l.cache.toList = []) :
    l.Requested rs := by
  intro k p hp
  rw [h] at hp
  exact absurd hp List.not_mem_nil

theorem Requested.act {rs : List PatchRequest} (hl : l.Requested rs) {a : Action}
    (ha : requests [a] ⊆ rs) (h : l.act a = .ok l') : l'.Requested rs := by
  intro k p hp
  rcases cached_before_act h hp with hp | ⟨r, now, name, l₁, rfl, hmiss, rfl⟩
  · exact hl hp
  · exact ⟨r, ha (List.mem_singleton_self r), rfl, size_of_miss hmiss⟩

theorem requested_run {acts : List Action} (h : l.run acts = .ok l')
    (nothing : l.cache.toList = []) : l'.Requested (requests acts) :=
  run_induction h (requested_of_nothing nothing) fun _ ha _ _ hact hl =>
    hl.act (requests_subset ha) hact

section
variable {source : Source} {scene : Scene} {queue : BakeQueue} {settings : Settings}
  {acts : List Action} {r : PatchRequest} {now : Nat} {p : Shared Patch} {l₀ : Landscape}

/-- **The size and the resolution of a patch that was asked for.**  Its index buffer has the
resolution of the patch's own size at the effective level.  That is the size asked for if no patch
was cached under the key, and else the size of an earlier request with the key; so it is the size
asked for if all earlier requests with the key had that size. -/
theorem size_of_get (hl : create source scene queue settings = .ok l₀)
    (h : l₀.run acts = .ok l) (hget : l.get r now = .ok (p, l')) :
    resolution (source.cellVertices settings.world) p.val.size (r.seams.effectiveLevel r.level)
      = .ok p.val.indices.val.resolution ∧
    (l.cache.get? r.key = none → p.val.size = r.size) ∧
    (∀ q, l.cache.get? r.key = some q →
      p = q ∧ ∃ r' ∈ requests acts, r'.key = r.key ∧ p.val.size = r'.size) ∧
    ((∀ r' ∈ requests acts, r'.key = r.key → r'.size = r.size) → p.val.size = r.size) := by
  have kept := kept_run hl h
  have built : l.cache.get? r.key = none → p.val.size = r.size := by
    intro hnone
    rcases get_cases hget with ⟨hp, -⟩ | ⟨-, hmiss⟩
    · rw [hnone] at hp
      cases hp
    · exact size_of_miss hmiss
  have cached : ∀ q, l.cache.get? r.key = some q →
      p = q ∧ ∃ r' ∈ requests acts, r'.key = r.key ∧ p.val.size = r'.size := by
    intro q hq
    rcases get_cases hget with ⟨hp, -⟩ | ⟨hnone, -⟩
    · refine ⟨Option.some.inj (hp.symm.trans hq), ?_⟩
      exact requested_run h (new_create hl).toList_cache (ExpiringCache.mem_toList_of_get? hp)
    · rw [hnone] at hq
      cases hq
  refine ⟨?_, built, cached, ?_⟩
  · obtain ⟨kept', hp⟩ := kept.get hget
    obtain ⟨n, hn, hindex, -⟩ := (kept'.supplied hp).buffers
    rw [(sameGround_get hget).cellVertices, cellVertices_run hl h, kept'.keyed hp] at hn
    rw [GridBuffers.resolution_of_findIndex? hindex]
    exact hn
  · intro same
    cases hq : l.cache.get? r.key with
    | none => exact built hq
    | some q =>
      obtain ⟨-, r', hr', hkey, hsize⟩ := cached q hq
      rw [hsize, same r' hr' hkey]

end

/-- **A size that is not the one asked for.**  A patch of one cell is asked for, and then one of two
cells with the same center, level and seams. -/
theorem other_size_of_get : ∃ l l' l'' : Landscape, ∃ p, small = .ok l ∧
    l.run [.get (requestAtOrigin Scalar.one 0) 0 none] = .ok l' ∧
    l'.get (requestAtOrigin Scalar.two 0) 0 = .ok (p, l'') ∧
    p.val.size ≠ (requestAtOrigin Scalar.two 0).size ∧
    resolution 2 (requestAtOrigin Scalar.two 0).size 0 ≠ .ok p.val.indices.val.resolution := by
  obtain ⟨l, l', l'', p, hl, h, hget, ht⟩ := get_small
    [.get (requestAtOrigin Scalar.one 0) 0 none] (requestAtOrigin Scalar.two 0)
    (fun p => decide (p.val.size = Scalar.one) && decide (p.val.indices.val.resolution = 2))
    (by decide +kernel)
  rw [Bool.and_eq_true, decide_eq_true_eq, decide_eq_true_eq] at ht
  have three : resolution 2 (requestAtOrigin Scalar.two 0).size 0 = .ok 3 := by rfl
  refine ⟨l, l', l'', p, hl, h, hget, ?_, ?_⟩
  · rw [ht.1]
    decide +kernel
  · rw [three, ht.2]
    intro e
    cases e

/-- another level leaves the size alone, and a copy has the size asked for -/
theorem size_of_get_copied : ∃ l l' l'' : Landscape, ∃ p, small = .ok l ∧
    l.run [.get (requestAtOrigin Scalar.two 0) 0 none] = .ok l' ∧
    l'.get (requestAtOrigin Scalar.two 1) 0 = .ok (p, l'') ∧ p.val.copied = true ∧
    p.val.size = (requestAtOrigin Scalar.two 1).size := by
  obtain ⟨l, l', l'', p, hl, h, hget, ht⟩ := get_small
    [.get (requestAtOrigin Scalar.two 0) 0 none] (requestAtOrigin Scalar.two 1)
    (fun p => p.val.copied) (by decide +kernel)
  refine ⟨l, l', l'', p, hl, h, hget, ht, (size_of_get hl h hget).2.2.2 ?_⟩
  intro r hr hkey
  rw [List.mem_singleton.mp hr]
  rfl

end Landscape

end TerrainPatches
