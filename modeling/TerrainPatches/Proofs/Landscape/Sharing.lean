import TerrainPatches.Proofs.Landscape.Runs

/-!
# What cached patches share

Patches are cached next to tables of what they share: the buffers, and the grids of tiles.  The
tables only grow while patches are cached, and they are emptied together with the cache, so what a
cached patch was given is still what its table gives out.  A copy joins the patches that share
passes and a composite, and what is shared stays when the patch that was copied goes.

`Kept` is the invariant, `kept_run` says that it holds after any run, and `shared_of_run` is what
follows for the objects that patches share.
-/

namespace TerrainPatches

namespace Landscape

variable {l l' : Landscape}

/-- the cache and the tables of shared objects fit together -/
structure Kept (l : Landscape) : Prop where
  cells : l.cellVertices = l.site.cellVertices
  ordered : l.cache.Ordered
  keyed : ∀ {k p}, (k, p) ∈ l.cache.toList → p.val.key = k
  given : ∀ {k p}, (k, p) ∈ l.cache.toList → p.id < l.workshop.supply.next
  named : ∀ {k p k' p'}, (k, p) ∈ l.cache.toList → (k', p') ∈ l.cache.toList → p.id = p'.id →
    k = k'
  painted : ∀ {k p k' p'}, (k, p) ∈ l.cache.toList → (k', p') ∈ l.cache.toList →
    k.sample = k'.sample → p.val.passes = p'.val.passes ∧ p.val.composite = p'.val.composite
  supplied : ∀ {k p}, (k, p) ∈ l.cache.toList → p.val.Supplied l.cellVertices l.workshop
  stocked : l.workshop.Stocked l.cellVertices

/-! ## without an entry -/

/-- with nothing cached and no grid remembered there is nothing to fit together -/
theorem kept_of_nothing (cells : l.cellVertices = l.site.cellVertices)
    (ordered : l.cache.Ordered) (nothing : l.cache.toList = [])
    (noGrids : l.workshop.tileGrids = []) : l.Kept := by
  have absent : ∀ {a}, a ∉ l.cache.toList := by
    rw [nothing]
    exact List.not_mem_nil
  exact ⟨cells, ordered, fun h => absurd h absent, fun h => absurd h absent,
    fun h => absurd h absent, fun h => absurd h absent, fun h => absurd h absent,
    Workshop.stocked_of_no_grids noGrids⟩

/-! ## steps -/

theorem Kept.apart (hl : l.Kept) (h : Apart l l') : l'.Kept := by
  obtain ⟨m, c, q, b, o, rfl⟩ := h
  exact ⟨hl.cells, hl.ordered, hl.keyed, hl.given, hl.named, hl.painted, hl.supplied, hl.stocked⟩

/-- work done in the workshop leaves everything as it was given out -/
theorem Kept.steps (hl : l.Kept) {w : Workshop} (h : Workshop.Steps l.site l.workshop w) :
    { l with workshop := w }.Kept where
  cells := hl.cells
  ordered := hl.ordered
  keyed := hl.keyed
  given hp := (hl.given hp).trans_le h.grows.supply
  named := hl.named
  painted := hl.painted
  supplied hp := (hl.supplied hp).mono h.grows
  stocked := by
    have before := hl.stocked
    rw [hl.cells] at before
    show w.Stocked l.cellVertices
    rw [hl.cells]
    exact h.stocked before

theorem Kept.builds (hl : l.Kept) (h : Builds l l') : l'.Kept := by
  obtain ⟨w, c, b, rfl, steps⟩ := h
  exact (hl.steps steps).apart ⟨_, _, _, _, _, rfl⟩

/-- forgetting entries -/
theorem Kept.sublist (hl : l.Kept) {c : ExpiringCache PatchKey Patch} (ordered : c.Ordered)
    (h : c.toList.Sublist l.cache.toList) : { l with cache := c }.Kept where
  cells := hl.cells
  ordered := ordered
  keyed hp := hl.keyed (h.subset hp)
  given hp := hl.given (h.subset hp)
  named hp hp' := hl.named (h.subset hp) (h.subset hp')
  painted hp hp' := hl.painted (h.subset hp) (h.subset hp')
  supplied hp := hl.supplied (h.subset hp)
  stocked := hl.stocked

/-- caching a patch with a name of its own, painted like its siblings -/
theorem Kept.insert (hl : l.Kept) {k : PatchKey} {p : Shared Patch} (now : Nat)
    (keyed : p.val.key = k) (given : p.id < l.workshop.supply.next)
    (fresh : ∀ {k' p'}, (k', p') ∈ l.cache.toList → p'.id ≠ p.id)
    (painted : ∀ {k' p'}, (k', p') ∈ l.cache.toList → k'.sample = k.sample →
      p.val.passes = p'.val.passes ∧ p.val.composite = p'.val.composite)
    (supplied : p.val.Supplied l.cellVertices l.workshop) :
    { l with cache := l.cache.insert k p now }.Kept := by
  -- two entries are both old, or one of them is the new one and its name tells it from the other
  have old : ∀ {a}, a ∈ (l.cache.insert k p now).toList → a = (k, p) ∨ a ∈ l.cache.toList :=
    ExpiringCache.mem_toList_insert
  refine ⟨hl.cells, hl.ordered.insert k p now, ?_, ?_, ?_, ?_, ?_, hl.stocked⟩
  · intro k₁ p₁ h₁
    rcases old h₁ with e₁ | h₁
    · cases e₁
      exact keyed
    · exact hl.keyed h₁
  · intro k₁ p₁ h₁
    rcases old h₁ with e₁ | h₁
    · cases e₁
      exact given
    · exact hl.given h₁
  · intro k₁ p₁ k₂ p₂ h₁ h₂ hid
    rcases old h₁ with e₁ | h₁ <;> rcases old h₂ with e₂ | h₂
    · cases e₁
      cases e₂
      rfl
    · cases e₁
      exact absurd hid.symm (fresh h₂)
    · cases e₂
      exact absurd hid (fresh h₁)
    · exact hl.named h₁ h₂ hid
  · intro k₁ p₁ k₂ p₂ h₁ h₂ hs
    rcases old h₁ with e₁ | h₁ <;> rcases old h₂ with e₂ | h₂
    · cases e₁
      cases e₂
      exact ⟨rfl, rfl⟩
    · cases e₁
      exact painted h₂ hs.symm
    · cases e₂
      exact (painted h₁ hs).imp Eq.symm Eq.symm
    · exact hl.painted h₁ h₂ hs
  · intro k₁ p₁ h₁
    rcases old h₁ with e₁ | h₁
    · cases e₁
      exact supplied
    · exact hl.supplied h₁

theorem Kept.update (hl : l.Kept) (now : Nat) : (l.update now).2.Kept :=
  hl.sublist (hl.ordered.evict l.outside now) (l.cache.toList_evict l.outside now)

theorem Kept.clear (hl : l.Kept) : l.clear.Kept :=
  kept_of_nothing hl.cells l.cache.ordered_clear l.cache.toList_clear rfl

/-! ## requests -/

/-- a new patch is painted like every cached patch of its sample: like the one it is copied from,
and if it is not copied there is none -/
theorem Kept.painted_build (hl : l.Kept) {r : PatchRequest} {patch : Patch}
    (h : l.build r (l.sibling? r.key.sample) = .ok (patch, l')) {k : PatchKey} {p : Shared Patch}
    (hp : (k, p) ∈ l.cache.toList) (hs : k.sample = r.key.sample) :
    patch.passes = p.val.passes ∧ patch.composite = p.val.composite := by
  cases hq : l.sibling? r.key.sample with
  | none => exact absurd hs ((sibling?_eq_none_iff hl.ordered).mp hq (k, p) hp)
  | some q =>
    rw [hq] at h
    obtain ⟨k', hk', hs'⟩ := mem_of_sibling? hl.ordered hq
    obtain ⟨passes, composite⟩ := build_painted h
    obtain ⟨passes', composite'⟩ := hl.painted hk' hp (hs'.trans hs.symm)
    exact ⟨passes.trans passes', composite.trans composite'⟩

theorem Kept.supplied_build (hl : l.Kept) {r : PatchRequest} {patch : Patch}
    (h : l.build r (l.sibling? r.key.sample) = .ok (patch, l')) :
    patch.Supplied l.cellVertices l'.workshop := by
  refine build_supplied h ?_
  intro q hq
  obtain ⟨k, hk, -⟩ := mem_of_sibling? hl.ordered hq
  exact hl.supplied hk

theorem Kept.miss (hl : l.Kept) {r : PatchRequest} {now : Nat} {p : Shared Patch}
    (h : l.miss r now = .ok (p, l')) : l'.Kept := by
  obtain ⟨patch, l₁, hbuild, rfl, rfl⟩ := miss_eq_ok h
  have hbuilds := builds_build hbuild
  -- both speak of the cache before the build, which leaves it alone
  have hpainted := fun {k p} => hl.painted_build hbuild (k := k) (p := p)
  have hsupplied := hl.supplied_build hbuild
  have h₁ := hl.builds hbuilds
  obtain ⟨w, c, b, rfl, -⟩ := hbuilds
  have share := Workshop.steps_share w l.site patch
  have h₂ := h₁.steps share
  have h₃ := h₂.insert (k := r.key) (p := ⟨w.supply.next, patch⟩) now (build_key hbuild).1
    (Nat.lt_succ_self _) (fun hp => (h₁.given hp).ne) hpainted (hsupplied.mono share.grows)
  exact h₃.apart ⟨_, _, _, _, _, rfl⟩

theorem Kept.get (hl : l.Kept) {r : PatchRequest} {now : Nat} {p : Shared Patch}
    (h : l.get r now = .ok (p, l')) : l'.Kept ∧ (r.key, p) ∈ l'.cache.toList := by
  cases get_cases h with
  | inl hit =>
    obtain ⟨hp, rfl⟩ := hit
    exact ⟨hl.apart ⟨_, _, _, _, _, rfl⟩, ExpiringCache.mem_toList_of_get? hp⟩
  | inr miss =>
    refine ⟨hl.miss miss.2, ?_⟩
    obtain ⟨patch, l₁, -, -, rfl⟩ := miss_eq_ok miss.2
    exact ExpiringCache.mem_toList_insert_self _ _ _ _

/-! ## runs -/

theorem Kept.act (hl : l.Kept) {a : Action} (h : l.act a = .ok l') : l'.Kept := by
  rcases act_cases h with h | ⟨r, now, name, p, l₁, -, -, hmiss, h⟩ | ⟨now, -, rfl⟩ | ⟨-, rfl⟩
  · exact hl.apart h
  · exact (hl.miss hmiss).apart h
  · exact hl.update now
  · exact hl.clear

theorem kept_create {source : Source} {scene : Scene} {queue : BakeQueue} {settings : Settings}
    (h : create source scene queue settings = .ok l) : l.Kept := by
  have new := new_create h
  refine kept_of_nothing ?_ ?_ new.toList_cache ?_
  · rw [new.cellVertices, new.site]
    rfl
  · rw [new.cache]
    exact ExpiringCache.ordered_empty _
  · rw [new.workshop]
    rfl

/-- **Any run keeps the cache and the tables of shared objects fitting together.** -/
theorem kept_run {source : Source} {scene : Scene} {queue : BakeQueue} {settings : Settings}
    {acts : List Action} (hl : create source scene queue settings = .ok l)
    (h : l.run acts = .ok l') : l'.Kept :=
  run_induction h (kept_create hl) fun _ _ _ _ hact hk => hk.act hact

/-- **What cached patches share after any run.**  Each is known by the key it is cached under and
cached under no other key.  Patches with one center and level have one and the same list of passes
and the same composite, or none.  The buffers are the ones given out for the patch's resolution and
seams, and every grid of a tile is the one remembered for its place, with the buffers given out for
its own resolution. -/
theorem shared_of_run {source : Source} {scene : Scene} {queue : BakeQueue} {settings : Settings}
    {acts : List Action} (hl : create source scene queue settings = .ok l)
    (h : l.run acts = .ok l') :
    (∀ k p, (k, p) ∈ l'.cache.toList → l'.cache.get? k = some p ∧ p.val.key = k) ∧
    (∀ k p k' p', (k, p) ∈ l'.cache.toList → (k', p') ∈ l'.cache.toList → k ≠ k' →
      p.id ≠ p'.id) ∧
    (∀ k p k' p', (k, p) ∈ l'.cache.toList → (k', p') ∈ l'.cache.toList →
      k.center = k'.center → k.level = k'.level →
        p.val.passes = p'.val.passes ∧ p.val.composite = p'.val.composite) ∧
    (∀ k p, (k, p) ∈ l'.cache.toList →
      ∃ n, resolution (source.cellVertices settings.world) p.val.size k.level = .ok n ∧
        l'.workshop.buffers.findIndex? n k.seams.edgeBits = some p.val.indices ∧
        l'.workshop.buffers.findUv? n = some p.val.uvs) ∧
    (∀ k p, (k, p) ∈ l'.cache.toList → ∀ c ∈ p.val.composite, ∀ t ∈ c.val.tiles,
      ∀ g colors blend, .detail g colors blend ∈ t.draws →
        l'.workshop.tileGrids.lookup (.ofSquare t.square) = some g ∧
        ∃ n, resolution (source.cellVertices settings.world) t.square.size 0 = .ok n ∧
          l'.workshop.buffers.findUv? n = some g.val.uvs ∧
          l'.workshop.buffers.findIndex? n Seams.none.edgeBits = some g.val.indices) := by
  have kept := kept_run hl h
  rw [← cellVertices_run hl h]
  refine ⟨?_, ?_, ?_, ?_, ?_⟩
  · intro k p hp
    exact ⟨kept.ordered.get?_eq_some_iff.mpr hp, kept.keyed hp⟩
  · intro k p k' p' hp hp' hne hid
    exact hne (kept.named hp hp' hid)
  · intro k p k' p' hp hp' hcenter hlevel
    exact kept.painted hp hp' (by rw [PatchKey.sample, hcenter, hlevel]; rfl)
  · intro k p hp
    have supplied := (kept.supplied hp).buffers
    rwa [kept.keyed hp] at supplied
  · intro k p hp c hc t ht g colors blend hd
    have found := (kept.supplied hp).tiles c hc t ht g colors blend hd
    obtain ⟨n, hn, huv, hindex, -⟩ := kept.stocked found
    exact ⟨found, n, hn, huv, hindex⟩

/-- a patch goes while its copy is held, and the copy is copied again -/
def copiedBack : List Action :=
  [.get (requestAtOrigin Scalar.two 0) 0 none, .clear,
    .get (requestAtOrigin Scalar.two 0) 0 none, .compileQueued 8,
    .get (requestAtOrigin Scalar.two 1) 0 "copy", .update 6000, .setNodeMask 7,
    .get (requestAtOrigin Scalar.two 0) 6000 none, .release]

theorem shared_of_run_copiedBack : ∃ l l' : Landscape, small = .ok l ∧
    l.run copiedBack = .ok l' ∧
    (l'.cache.toList.map fun e => (e.1.seams.bits, e.2.val.copied, e.2.val.composite.isSome))
      = [(0, true, true), (1, true, true)] ∧
    ∀ k p k' p', (k, p) ∈ l'.cache.toList → (k', p') ∈ l'.cache.toList →
      k.center = k'.center → k.level = k'.level →
        p.val.passes = p'.val.passes ∧ p.val.composite = p'.val.composite := by
  obtain ⟨l, l', hl, h, ht⟩ := run_small copiedBack (fun l => decide
    ((l.cache.toList.map fun e => (e.1.seams.bits, e.2.val.copied, e.2.val.composite.isSome))
      = [(0, true, true), (1, true, true)])) (by decide +kernel)
  exact ⟨l, l', hl, h, of_decide_eq_true ht, (shared_of_run hl h).2.2.1⟩

/-! ## siblings -/

/-- **The search for a sibling misses nothing and finds nothing else.**  The cached keys may have
any centers, infinite ones, both zeros and all patterns of what is undefined among them, any levels
and any seams.  The greatest that is not above the last key of a sample, if it is of the sample, is
the one with the greatest seams among the cached keys with this center and level, and there is one
as soon as a key with this center and level is cached. -/
theorem sibling_of_ordered (l : Landscape) (ordered : l.cache.Ordered) (s : SampleKey) :
    (∀ e, s.search? l.cache = some e ↔ e ∈ l.cache.entries ∧
      (e.key.center = s.center ∧ e.key.level = s.level) ∧
        ∀ f ∈ l.cache.entries, f.key.center = s.center ∧ f.key.level = s.level →
          f.key.seams.bits ≤ e.key.seams.bits) ∧
    ((s.search? l.cache).isSome = true ↔
      ∃ f ∈ l.cache.entries, f.key.center = s.center ∧ f.key.level = s.level) ∧
    l.sibling? s = (s.search? l.cache).map (·.object) := by
  have same : ∀ k : PatchKey, k.sample = s ↔ k.center = s.center ∧ k.level = s.level := by
    intro k
    rw [PatchKey.sample, ← SampleKey.mk.injEq]
  simp only [← same]
  refine ⟨fun e => SampleKey.search?_eq_some_iff ordered, ?_, sibling?_eq⟩
  rw [← Option.ne_none_iff_isSome, ne_eq, SampleKey.search?_eq_none_iff ordered]
  push Not
  exact Iff.rfl

/-- the sample at level 0 around a point on the axis of `x` -/
def onAxis (x : UInt32) : SampleKey := ⟨⟨⟨x⟩, ⟨0⟩⟩, 0⟩

/-- patches at centers that no order of numbers can tell apart, at two levels: around three of the
patterns of what is undefined, both infinities and both zeros -/
def scattered : List Action :=
  let get (x y : UInt32) (level : UInt8) (seams : UInt32) : Action :=
    .get ⟨Scalar.one, ⟨⟨x⟩, ⟨y⟩⟩, level, ⟨seams⟩, false⟩ 0 none
  [get 0x7fc00000 0 0 2, get 0x7fc00000 0 0 1, get 0xffc00000 0 0 3, get 0x7fc00001 0 0 4,
    get 0 0x7f800000 1 0, get 0x80000000 0x7f800000 0 1, get 0x80000000 0xff800000 0 3]

/-- two undefined centers are told apart by their signs, and one that is not cached is not taken for
the one before it; the zeros are told apart too -/
theorem sibling_of_ordered_scattered : ∃ l l' : Landscape, small = .ok l ∧
    l.run scattered = .ok l' ∧
    (∃ e ∈ l'.cache.entries, e.key.seams = ⟨2⟩ ∧ l'.sibling? (onAxis 0x7fc00000) = some e.object ∧
      ∀ f ∈ l'.cache.entries, f.key.center = ⟨⟨0x7fc00000⟩, ⟨0⟩⟩ ∧ f.key.level = 0 →
        f.key.seams.bits ≤ e.key.seams.bits) ∧
    (∃ e ∈ l'.cache.entries, e.key.seams = ⟨3⟩ ∧ l'.sibling? (onAxis 0xffc00000) = some e.object ∧
      ∀ f ∈ l'.cache.entries, f.key.center = ⟨⟨0xffc00000⟩, ⟨0⟩⟩ ∧ f.key.level = 0 →
        f.key.seams.bits ≤ e.key.seams.bits) ∧
    l'.sibling? (onAxis 0x7fc00002) = none ∧
    l'.sibling? ⟨⟨⟨0⟩, ⟨0x7f800000⟩⟩, 0⟩ = none := by
  let infinite : SampleKey := ⟨⟨⟨0⟩, ⟨0x7f800000⟩⟩, 0⟩
  let seams (l : Landscape) (s : SampleKey) : Option Seams := (s.search? l.cache).map (·.key.seams)
  obtain ⟨l, l', hl, h, ht⟩ := run_small scattered (fun l => decide
    (seams l (onAxis 0x7fc00000) = some ⟨2⟩ ∧ seams l (onAxis 0xffc00000) = some ⟨3⟩ ∧
      seams l (onAxis 0x7fc00002) = none ∧ seams l infinite = none)) (by decide +kernel)
  obtain ⟨positive, negative, third, zero⟩ := of_decide_eq_true ht
  have search := sibling_of_ordered l' (kept_run hl h).ordered
  have found {s : SampleKey} {f : Seams} (hs : seams l' s = some f) :
      ∃ e ∈ l'.cache.entries, e.key.seams = f ∧ l'.sibling? s = some e.object ∧
        ∀ f ∈ l'.cache.entries, f.key.center = s.center ∧ f.key.level = s.level →
          f.key.seams.bits ≤ e.key.seams.bits := by
    obtain ⟨e, he, hseams⟩ := Option.map_eq_some_iff.mp hs
    obtain ⟨hmem, -, greatest⟩ := ((search s).1 e).mp he
    exact ⟨e, hmem, hseams, by rw [(search s).2.2, he]; rfl, greatest⟩
  have missing {s : SampleKey} (hs : seams l' s = none) : l'.sibling? s = none := by
    rw [(search s).2.2, Option.map_eq_none_iff.mp hs]
    rfl
  exact ⟨l, l', hl, h, found positive, found negative, missing third, missing zero⟩

end Landscape

end TerrainPatches
