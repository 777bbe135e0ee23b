import TerrainPatches.Proofs.Quadtree.Frames
import TerrainPatches.Proofs.Workshop.Grids
import TerrainPatches.Source.Flat

/-!
# Builders of composites

A builder makes one composite after the other in one workshop, of patches of any sites, sizes and
places, and now and then it is cleared of its grids and of the buffers.  `Accounted` is what holds of
it at any time (`accounted_run`): every tile has the grid it would have alone, two tiles made since
the same clearing share a grid exactly if they have one key, and the grids that are remembered are
those of the tiles made since the last clearing.

So composites of patches of one size share all their grids, and together they need as many as one of
them has tiles (`grids_of_run`).
-/

namespace TerrainPatches

/-! ## building and clearing -/

/-- what is asked of a builder -/
inductive Job where
  /-- the composite of a patch -/
  | build (site : Site) (size : Float32) (center : Point2 Float32) (target : Shared Texture)
  /-- to forget its grids, and the buffers with them -/
  | clear

/-- a composite, and how often its builder had been cleared before it was made -/
structure Built where
  size : Float32
  center : Point2 Float32
  clears : Nat
  composite : Composite

structure Builder where
  maxTileSize : Float32
  workshop : Workshop
  clears : Nat
  built : List Built

namespace Builder

def initial (maxTileSize : Float32) : Builder := ⟨maxTileSize, .initial, 0, []⟩

/-- with one composite more, and the workshop as it was left -/
def add (b : Builder) (size : Float32) (center : Point2 Float32) (composite : Composite)
    (workshop : Workshop) : Builder :=
  { b with workshop, built := ⟨size, center, b.clears, composite⟩ :: b.built }

def perform (b : Builder) : Job → Except Fault Builder
  | .build site size center target => do
    let (composite, workshop) ←
      b.workshop.composite site b.maxTileSize size center target
    return b.add size center composite workshop
  | .clear => .ok { b with
      workshop := b.workshop.clearBuffers.clearTileGrids
      clears := b.clears + 1 }

def run (b : Builder) : List Job → Except Fault Builder
  | [] => .ok b
  | job :: jobs => do
    let b ← b.perform job
    b.run jobs

/-- what was built since the last clearing -/
def recent (b : Builder) : List Built := b.built.filter fun f => f.clears == b.clears

theorem mem_recent {b : Builder} {f : Built} :
    f ∈ b.recent ↔ f ∈ b.built ∧ f.clears = b.clears := by
  rw [recent, List.mem_filter, beq_iff_eq]

theorem mem_recent_add {b : Builder} {size : Float32} {center : Point2 Float32} {c : Composite}
    {w : Workshop} {f : Built} :
    f ∈ (b.add size center c w).recent ↔ f = ⟨size, center, b.clears, c⟩ ∨ f ∈ b.recent := by
  rw [mem_recent, mem_recent]
  show f ∈ _ :: b.built ∧ f.clears = b.clears ↔ _
  rw [List.mem_cons, or_and_right, and_iff_left_of_imp]
  exact congrArg Built.clears

end Builder

/-! ## tiles that agree -/

/-- the tiles share a grid exactly if they have one key -/
def Tile.Agree (t t' : Tile) : Prop := ∀ g ∈ t.grids, ∀ g' ∈ t'.grids,
  (g.id = g'.id ↔ t.key = t'.key) ∧ (g.id = g'.id → g = g')

/-- tiles agree if their grids are remembered -/
theorem Workshop.Indexed.agree {w : Workshop} {t t' : Tile} (hw : w.Indexed)
    (h : t.Remembered w) (h' : t'.Remembered w) : t.Agree t' := by
  intro g hg g' hg'
  exact hw.same_iff (h.lookup hg) (h'.lookup hg')

/-- tiles that agree and have the same keys have the same grids -/
theorem Tile.map_grids_eq {ts ts' : List Tile} (agree : ∀ t ∈ ts, ∀ t' ∈ ts', t.Agree t')
    (keys : ts.map Tile.key = ts'.map Tile.key) (one : ∀ t ∈ ts, ∃ g, t.grids = [g])
    (one' : ∀ t ∈ ts', ∃ g, t.grids = [g]) : ts.map Tile.grids = ts'.map Tile.grids := by
  induction ts generalizing ts' with
  | nil =>
    rw [List.map_eq_nil_iff.mp keys.symm]
  | cons t ts ih =>
    cases ts' with
    | nil => cases keys
    | cons t' ts' =>
      obtain ⟨key, keys⟩ := List.cons.inj keys
      obtain ⟨⟨g, hg⟩, one⟩ := List.forall_mem_cons.mp one
      obtain ⟨⟨g', hg'⟩, one'⟩ := List.forall_mem_cons.mp one'
      have first : t.grids = t'.grids := by
        obtain ⟨same, equal⟩ := agree t List.mem_cons_self t' List.mem_cons_self g
          (hg ▸ List.mem_singleton_self g) g' (hg' ▸ List.mem_singleton_self g')
        rw [hg, hg', equal (same.mpr key)]
      have rest : ∀ q ∈ ts, ∀ q' ∈ ts', q.Agree q' := fun q hq q' hq' =>
        agree q (List.mem_cons_of_mem _ hq) q' (List.mem_cons_of_mem _ hq')
      rw [List.map_cons, List.map_cons, first, ih rest keys one one']

namespace Builder

/-! ## the account of a builder -/

/-- what was built is as it should be, and what is remembered is what was built last -/
structure Accounted (cellVertices : Nat) (maxTileSize : Float32) (b : Builder) : Prop where
  limit : b.maxTileSize = maxTileSize
  inOrder : b.workshop.InOrder cellVertices
  past : ∀ f ∈ b.built, f.clears ≤ b.clears
  leaves : ∀ f ∈ b.built,
    Quadtree.split f.size f.center maxTileSize = .ok (f.composite.tiles.map (·.square))
  detailed : ∀ f ∈ b.built, ∀ t ∈ f.composite.tiles,
    ∃ n, resolution cellVertices t.square.size 0 = .ok n ∧ t.Detailed n
  agree : ∀ f ∈ b.built, ∀ f' ∈ b.built, f.clears = f'.clears →
    ∀ t ∈ f.composite.tiles, ∀ t' ∈ f'.composite.tiles, t.Agree t'
  remembered : ∀ f ∈ b.recent, ∀ t ∈ f.composite.tiles, t.Remembered b.workshop
  needed : ∀ k ∈ b.workshop.keys, ∃ f ∈ b.recent, k ∈ f.composite.tiles.map Tile.key

variable {b b' : Builder} {cellVertices : Nat} {maxTileSize : Float32}

theorem accounted_initial (cellVertices : Nat) (maxTileSize : Float32) :
    (initial maxTileSize).Accounted cellVertices maxTileSize where
  limit := rfl
  inOrder := Workshop.inOrder_of_nothing rfl rfl
  past _ h := absurd h List.not_mem_nil
  leaves _ h := absurd h List.not_mem_nil
  detailed _ h := absurd h List.not_mem_nil
  agree _ h := absurd h List.not_mem_nil
  remembered _ h := absurd h List.not_mem_nil
  needed _ h := absurd h List.not_mem_nil

theorem Accounted.build (hb : b.Accounted cellVertices maxTileSize) {site : Site}
    {size : Float32} {center : Point2 Float32} {target : Shared Texture}
    (hcells : site.cellVertices = cellVertices)
    (h : b.perform (.build site size center target) = .ok b') :
    b'.Accounted cellVertices maxTileSize := by
  obtain ⟨⟨c, w⟩, hc, h⟩ := Fault.bind_eq_ok.mp h
  cases h
  have inOrder := hb.inOrder
  rw [← hcells] at inOrder
  obtain ⟨inOrder', keys, leaves, detailed⟩ := Workshop.inOrder_composite inOrder hc
  obtain ⟨steps, -, remembered⟩ := Workshop.steps_composite hc
  rw [hcells] at inOrder' detailed
  rw [hb.limit] at leaves
  have kept : ∀ f ∈ (b.add size center c w).recent, ∀ t ∈ f.composite.tiles, t.Remembered w := by
    intro f hf t ht
    cases mem_recent_add.mp hf with
    | inl e =>
      subst e
      exact remembered t ht
    | inr hf => exact (hb.remembered f hf t ht).mono steps.grows
  refine ⟨hb.limit, inOrder', ?_, ?_, ?_, ?_, kept, ?_⟩
  · exact List.forall_mem_cons.mpr ⟨le_rfl, hb.past⟩
  · exact List.forall_mem_cons.mpr ⟨leaves, hb.leaves⟩
  · exact List.forall_mem_cons.mpr ⟨detailed, hb.detailed⟩
  · -- what was built last agrees by the table, what was built before did so already
    intro f hf f' hf' same
    by_cases now : f.clears = b.clears
    · intro t ht t' ht'
      exact inOrder'.indexed.agree (kept f (mem_recent.mpr ⟨hf, now⟩) t ht)
        (kept f' (mem_recent.mpr ⟨hf', same.symm.trans now⟩) t' ht')
    · have old {f : Built} (hf : f ∈ (b.add size center c w).built) (before : f.clears ≠ b.clears) :
          f ∈ b.built :=
        (List.mem_cons.mp hf).resolve_left fun e => before (congrArg Built.clears e)
      exact hb.agree f (old hf now) f' (old hf' (same ▸ now)) same
  · intro k hk
    cases List.mem_append.mp (keys hk) with
    | inl hk => exact ⟨_, mem_recent_add.mpr (.inl rfl), hk⟩
    | inr hk =>
      obtain ⟨f, hf, hk⟩ := hb.needed k hk
      exact ⟨f, mem_recent_add.mpr (.inr hf), hk⟩

theorem Accounted.clear (hb : b.Accounted cellVertices maxTileSize)
    (h : b.perform .clear = .ok b') : b'.Accounted cellVertices maxTileSize := by
  cases h
  refine ⟨hb.limit, Workshop.inOrder_of_nothing rfl rfl, ?_, hb.leaves, hb.detailed, hb.agree,
    ?_, ?_⟩
  · exact fun f hf => (hb.past f hf).trans (Nat.le_succ _)
  · intro f hf
    obtain ⟨hf, now⟩ := mem_recent.mp hf
    exact absurd (hb.past f hf) (not_le.mpr (now ▸ Nat.lt_succ_self _))
  · exact fun k hk => absurd hk List.not_mem_nil

theorem accounted_run {jobs : List Job}
    (hcells : ∀ site size center target, .build site size center target ∈ jobs →
      site.cellVertices = cellVertices)
    (hb : b.Accounted cellVertices maxTileSize) (h : b.run jobs = .ok b') :
    b'.Accounted cellVertices maxTileSize := by
  induction jobs generalizing b with
  | nil =>
    cases h
    exact hb
  | cons job jobs ih =>
    obtain ⟨b₁, hjob, h⟩ := Fault.bind_eq_ok.mp h
    refine ih (fun _ _ _ _ hj => hcells _ _ _ _ (List.mem_cons_of_mem _ hj)) ?_ h
    cases job with
    | build site size center target =>
      exact hb.build (hcells _ _ _ _ List.mem_cons_self) hjob
    | clear => exact hb.clear hjob

/-! ## patches of one size -/

/-- the keys of the tiles depend on the size of the patch alone -/
theorem Accounted.keys_eq (hb : b.Accounted cellVertices maxTileSize) {f : Built}
    (hf : f ∈ b.built) : ∃ k, Settles maxTileSize f.size k ∧
      f.composite.tiles.map Tile.key = (TexRect.cells k TexRect.unit).map fun r =>
        ⟨halved k f.size, r.frame.center, r.frame.width⟩ := by
  obtain ⟨k, hk, hleaves⟩ := Quadtree.level_of_leaves (hb.leaves f hf)
  refine ⟨k, hk, ?_⟩
  rw [← Quadtree.map_ofSquare_quarterings k f.size f.center, ← hleaves, List.map_map]
  rfl

theorem Accounted.one_grid (hb : b.Accounted cellVertices maxTileSize) {f : Built}
    (hf : f ∈ b.built) : ∀ t ∈ f.composite.tiles, ∃ g, t.grids = [g] := by
  intro t ht
  obtain ⟨n, -, detailed⟩ := hb.detailed f hf t ht
  obtain ⟨g, hg, -⟩ := detailed.grids
  exact ⟨g, hg⟩

theorem Accounted.grids_eq (hb : b.Accounted cellVertices maxTileSize) {f f' : Built}
    (hf : f ∈ b.built) (hf' : f' ∈ b.built) (clears : f.clears = f'.clears)
    (size : f.size = f'.size) :
    f.composite.tiles.map Tile.grids = f'.composite.tiles.map Tile.grids := by
  obtain ⟨k, hk, keys⟩ := hb.keys_eq hf
  obtain ⟨k', hk', keys'⟩ := hb.keys_eq hf'
  rw [← size] at hk' keys'
  have level : k = k' := hk.unique hk'
  rw [← level] at keys'
  exact Tile.map_grids_eq (hb.agree f hf f' hf' clears) (keys.trans keys'.symm) (hb.one_grid hf)
    (hb.one_grid hf')

/-- patches of one size need as many grids as one of them has tiles -/
theorem Accounted.length_tileGrids (hb : b.Accounted cellVertices maxTileSize) {f : Built}
    (hf : f ∈ b.recent) (size : ∀ f' ∈ b.recent, f'.size = f.size) {k : Nat}
    (hk : Settles maxTileSize f.size k) (h24 : k ≤ 24) : b.workshop.tileGrids.length = 4 ^ k := by
  have level : ∀ f' ∈ b.recent, f'.composite.tiles.map Tile.key
      = (Quadtree.quarterings k (.whole f.size f.center)).map TileKey.ofSquare := by
    intro f' hf'
    obtain ⟨k', hk', keys⟩ := hb.keys_eq (mem_recent.mp hf').1
    rw [size f' hf'] at hk' keys
    rw [Quadtree.map_ofSquare_quarterings, keys, hk.unique hk']
  have all : b.workshop.keys.Perm (f.composite.tiles.map Tile.key) := by
    have nodup := Quadtree.nodup_keys h24 f.size f.center
    rw [← level f hf] at nodup
    refine (List.perm_ext_iff_of_nodup hb.inOrder.indexed.nodup_keys nodup).mpr fun key => ?_
    constructor
    · intro hkey
      obtain ⟨f', hf', hkey⟩ := hb.needed key hkey
      rw [level f hf, ← level f' hf']
      exact hkey
    · intro hkey
      obtain ⟨t, ht, rfl⟩ := List.mem_map.mp hkey
      obtain ⟨g, hg⟩ := hb.one_grid (mem_recent.mp hf).1 t ht
      have found := (hb.remembered f hf t ht).lookup (hg ▸ List.mem_singleton_self g)
      exact List.mem_map_of_mem (mem_of_lookup found)
  calc b.workshop.tileGrids.length = b.workshop.keys.length := (List.length_map _).symm
    _ = (f.composite.tiles.map Tile.key).length := all.length_eq
    _ = (Quadtree.quarterings k (.whole f.size f.center)).length := by
      rw [level f hf, List.length_map]
    _ = 4 ^ k := Quadtree.length_quarterings k _

/-! ## any run -/

/-- **Grids are shared exactly as far as their keys allow, and never show it.**  After any building
and clearing of patches whose cells have one number of vertices:

* the tiles of a composite are the leaves of its patch, and each has the grid of its square alone;
* two tiles made since the same clearing have one grid exactly if their squares have one size and
  frames with one center and one width (as keys are compared, so that `0` is not `-0`);
* composites of patches of one size, made since the same clearing, have the same grids in the same
  order, wherever the patches are, and if nothing else was built since the last clearing, and the
  patches are quartered at most twenty-four times, the grids that are remembered are as many as the
  leaves of one patch;
* the next composite can be made if its patch has leaves, and there is a resolution and there are
  colors for each of them, whatever is remembered. -/
theorem grids_of_run {cellVertices : Nat} {maxTileSize : Float32} {jobs : List Job} {b : Builder}
    (hcells : ∀ site size center target, .build site size center target ∈ jobs →
      site.cellVertices = cellVertices)
    (h : (initial maxTileSize).run jobs = .ok b) :
    (∀ f ∈ b.built,
      Quadtree.split f.size f.center maxTileSize = .ok (f.composite.tiles.map (·.square)) ∧
      ∀ t ∈ f.composite.tiles, ∃ n g, resolution cellVertices t.square.size 0 = .ok n ∧
        t.grids = [g] ∧
        g.val.positions.elements = Grid.flat n t.square.rect.frame.center
          t.square.rect.frame.width t.square.rect.frame.height ∧
        g.val.uvs.val = .build n ∧ g.val.indices.val = .build n .none) ∧
    (∀ f ∈ b.built, ∀ f' ∈ b.built, f.clears = f'.clears →
      ∀ t ∈ f.composite.tiles, ∀ t' ∈ f'.composite.tiles, ∀ g ∈ t.grids, ∀ g' ∈ t'.grids,
        (g.id = g'.id ↔ t.square.size = t'.square.size ∧
          t.square.rect.frame.center = t'.square.rect.frame.center ∧
          t.square.rect.frame.width = t'.square.rect.frame.width) ∧
        (g.id = g'.id → g = g')) ∧
    (∀ f ∈ b.built, ∀ f' ∈ b.built, f.clears = f'.clears → f.size = f'.size →
      f.composite.tiles.map Tile.grids = f'.composite.tiles.map Tile.grids) ∧
    (∀ f ∈ b.recent, (∀ f' ∈ b.recent, f'.size = f.size) → ∀ k ≤ 24,
      IsLeast {j | halved j f.size ≤ maxTileSize} k → b.workshop.tileGrids.length = 4 ^ k) ∧
    ∀ site size center target, site.cellVertices = cellVertices →
      ((∃ b', b.perform (.build site size center target) = .ok b') ↔
        ∃ leaves, Quadtree.split size center maxTileSize = .ok leaves ∧
          ∀ s ∈ leaves, (∃ n, resolution cellVertices s.size 0 = .ok n) ∧
            ∃ colors, site.source.tileColors 0 (site.place s.size s.center) = .ok colors) := by
  have hb := accounted_run hcells (accounted_initial cellVertices maxTileSize) h
  refine ⟨?_, ?_, fun f hf f' hf' => hb.grids_eq hf hf', ?_, ?_⟩
  · intro f hf
    refine ⟨hb.leaves f hf, ?_⟩
    intro t ht
    obtain ⟨n, hn, detailed⟩ := hb.detailed f hf t ht
    obtain ⟨g, hg, parts⟩ := detailed.grids
    exact ⟨n, g, hn, hg, parts⟩
  · intro f hf f' hf' clears t ht t' ht' g hg g' hg'
    obtain ⟨same, equal⟩ := hb.agree f hf f' hf' clears t ht t' ht' g hg g' hg'
    refine ⟨same.trans ?_, equal⟩
    rw [Tile.key, Tile.key, TileKey.ofSquare, TileKey.ofSquare, TileKey.mk.injEq]
  · intro f hf size k h24 hk
    obtain ⟨hmax, hfinite, -⟩ := Quadtree.leaves_eq_ok_iff.mp (hb.leaves f (mem_recent.mp hf).1)
    exact hb.length_tileGrids hf size ((settles_iff hfinite hmax).mpr hk) h24
  · intro site size center target hsite
    have stocked := hb.inOrder.stocked
    rw [← hsite] at stocked
    have made : (∃ a, b.workshop.composite site b.maxTileSize size center target = .ok a) ↔ _ :=
      Workshop.exists_composite_iff stocked
    rw [hsite, hb.limit] at made
    rw [← made]
    constructor
    · intro h
      obtain ⟨b', h⟩ := h
      obtain ⟨a, ha, -⟩ := Fault.bind_eq_ok.mp h
      exact ⟨a, hb.limit ▸ ha⟩
    · intro h
      obtain ⟨a, ha⟩ := h
      exact ⟨_, Fault.bind_eq_ok.mpr ⟨a, hb.limit ▸ ha, rfl⟩⟩

/-- cells of one interval with one layer -/
def field : Site :=
  ⟨({ FlatTerrain.standard with cellVertices := 2, layerCount := 1 }).source,
    ⟨false, true, Scene.blankTexture, false, true⟩, 0⟩

/-- a patch of two by two cells with its center at `x` -/
def fieldJob (x : Nat) : Job :=
  .build field Scalar.two ⟨Scalar.ofNat x, Scalar.zero⟩ ⟨0, Texture.target 4⟩

/-- two neighbors share four grids, made after a clearing -/
theorem grids_of_run_neighbors : ∃ b,
    (initial Scalar.one).run [fieldJob 5, .clear, fieldJob 1, fieldJob 3] = .ok b ∧
      b.recent.length = 2 ∧ b.workshop.tileGrids.length = 4 ^ 1 ∧
      (∀ f ∈ b.recent, ∀ f' ∈ b.recent,
        f.composite.tiles.map Tile.grids = f'.composite.tiles.map Tile.grids) ∧
      ∃ b', b.perform (fieldJob 7) = .ok b' := by
  obtain ⟨b, h, test⟩ : ∃ b : Builder,
      (initial Scalar.one).run [fieldJob 5, .clear, fieldJob 1, fieldJob 3] = .ok b ∧
        decide (b.recent.map (·.size) = [Scalar.two, Scalar.two]) = true :=
    exists_ok_of_any (by decide +kernel)
  have sizes := of_decide_eq_true test
  have cells : ∀ site size center target,
      .build site size center target ∈ [fieldJob 5, .clear, fieldJob 1, fieldJob 3] →
        site.cellVertices = 2 := by
    intro site size center target hj
    simp only [fieldJob, List.mem_cons, Job.build.injEq, reduceCtorEq, List.not_mem_nil,
      false_or, or_false] at hj
    rcases hj with ⟨rfl, -⟩ | ⟨rfl, -⟩ | ⟨rfl, -⟩ <;> rfl
  obtain ⟨-, -, shared, count, made⟩ := grids_of_run cells h
  have size : ∀ f ∈ b.recent, f.size = Scalar.two := by
    intro f hf
    have hsize : f.size ∈ b.recent.map (·.size) := List.mem_map_of_mem hf
    rw [sizes] at hsize
    simpa using hsize
  have length : b.recent.length = 2 := by
    rw [← List.length_map (fun f : Built => f.size), sizes]
    rfl
  have depth : IsLeast {j | halved j (Scalar.two : Float32) ≤ Scalar.one} 1 := by
    refine ⟨by decide +kernel, fun j hj => ?_⟩
    by_contra below
    have first : ¬ halved 0 (Scalar.two : Float32) ≤ Scalar.one := by decide +kernel
    rw [show j = 0 by omega] at hj
    exact first hj
  refine ⟨b, h, length, ?_, ?_, ?_⟩
  · obtain ⟨f, hf⟩ := List.exists_mem_of_length_pos (show 0 < b.recent.length by omega)
    refine count f hf (fun f' hf' => (size f' hf').trans (size f hf).symm) 1 (by omega) ?_
    rw [size f hf]
    exact depth
  · intro f hf f' hf'
    obtain ⟨hf, now⟩ := mem_recent.mp hf
    obtain ⟨hf', now'⟩ := mem_recent.mp hf'
    exact shared f hf f' hf' (now.trans now'.symm)
      ((size f (mem_recent.mpr ⟨hf, now⟩)).trans (size f' (mem_recent.mpr ⟨hf', now'⟩)).symm)
  · refine (made field Scalar.two _ _ rfl).mpr ?_
    obtain ⟨leaves, hleaves, each⟩ : ∃ leaves : List (Square Float32),
        Quadtree.split Scalar.two ⟨Scalar.ofNat 7, Scalar.zero⟩ Scalar.one = .ok leaves ∧
          (leaves.all fun s => (resolution 2 s.size 0).toOption.any fun _ =>
            (field.source.tileColors 0 (field.place s.size s.center)).toOption.any
              fun _ => true) = true := exists_ok_of_any (by decide +kernel)
    refine ⟨leaves, hleaves, ?_⟩
    intro s hs
    obtain ⟨n, hn, colored⟩ := exists_ok_of_any (List.all_eq_true.mp each s hs)
    obtain ⟨colors, hcolors, -⟩ := exists_ok_of_any colored
    exact ⟨⟨n, hn⟩, colors, hcolors⟩

end Builder

end TerrainPatches
