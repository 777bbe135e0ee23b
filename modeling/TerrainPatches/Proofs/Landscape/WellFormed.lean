import TerrainPatches.Proofs.Landscape.Accounts
import TerrainPatches.Proofs.Landscape.Transparency
import TerrainPatches.Proofs.Mesh.Reading

/-!
# Patches whose parts fit together

A patch refers to vertices from the source, to an index buffer and to texture coordinates, and all
of them have to belong to one grid (`Patch.WellFormed`).  A landscape compares two of the counts
when it builds a patch and faults if they differ.  Over a source that lays out every place as the
grid of its resolution (`Source.Regular`) they never differ, as long as the requests for one center
and level agree about the size: this holds of plans (`Plan.patch_ne_mismatch`,
`Plan.wellFormed_of_patch`), and what is answered looks as planned.  Flat terrain is such a source
(`well_formed_of_run`).
-/

namespace TerrainPatches

/-! ## counts that differ -/

section
variable {α β : Type}

theorem Fault.bind_ne_error {x : Except Fault α} {f : α → Except Fault β} {e : Fault}
    (first : x ≠ .error e) (second : ∀ a, x = .ok a → f a ≠ .error e) : x >>= f ≠ .error e := by
  cases x with
  | error e' => exact fun h => first (by cases h; rfl)
  | ok a => exact second a rfl

theorem resolution_ne_mismatch [Scalar α] (cellVertices : Nat) (size : α) (level : UInt8) :
    resolution cellVertices size level ≠ .error .vertexCountMismatch := by
  unfold resolution
  split
  · exact fun h => by cases h
  · split <;> exact fun h => by cases h

end

namespace Quadtree

theorem drain_ne_mismatch {α : Type} [Scalar α] (limit : Nat) (maxSize : α)
    (work : List (Square α × Nat)) (found : List (Square α)) :
    drain limit maxSize work found ≠ .error .vertexCountMismatch := by
  fun_induction drain limit maxSize work found with
  | case1 found => exact fun h => by cases h
  | case2 s d rest found deep => exact fun h => by cases h
  | case3 s d rest found shallow large ih => exact ih
  | case4 s d rest found shallow small ih => exact ih

theorem split_ne_mismatch (size : Float32) (center : Point2 Float32) (maxSize : Float32) :
    split size center maxSize ≠ .error .vertexCountMismatch := by
  unfold split leaves depthLimit
  split
  · exact fun h => by cases h
  split
  · exact fun h => by cases h
  dsimp only
  split
  · next e he =>
    split at he <;> cases he
    exact fun h => by cases h
  · exact drain_ne_mismatch _ _ _ _

end Quadtree

/-! ## sources -/

/-- a source that lays out every place as the grid of its resolution -/
structure Source.Regular (s : Source) : Prop where
  laid : ∀ {level place baked v}, s.vertices level place baked = .ok v →
    ∃ n, resolution (s.cellVertices place.world) place.size level = .ok n ∧
      v.positions.length = n * n ∧ v.normals.length = n * n ∧ v.colors.length = n * n
  vertices : ∀ level place baked, s.vertices level place baked ≠ .error .vertexCountMismatch
  tileColors : ∀ level place, s.tileColors level place ≠ .error .vertexCountMismatch

theorem FlatTerrain.regular (t : FlatTerrain) : t.source.Regular where
  laid {level place baked v} h := by
    replace h : t.vertices level place = .ok v := h
    unfold vertices at h
    split at h
    · cases h
    · next n hn =>
      cases h
      exact ⟨n, hn, length_samples _ _ _ n, List.length_replicate, List.length_replicate⟩
  vertices level place _ := by
    show t.vertices level place ≠ _
    unfold vertices
    split
    · next e he => exact fun h => resolution_ne_mismatch _ _ _ (he.trans (by cases h; rfl))
    · exact fun h => by cases h
  tileColors level place := by
    show t.tileColors level place ≠ _
    unfold tileColors
    split
    · next e he => exact fun h => resolution_ne_mismatch _ _ _ (he.trans (by cases h; rfl))
    · exact fun h => by cases h

/-! ## plans -/

/-- a patch with `n` vertices along an edge, stitched for its key -/
structure Patch.WellFormed (n : Nat) (p : Patch) : Prop where
  indices : p.indices.val = .build n p.key.seams
  uvs : p.uvs.val = .build n
  positions : p.positions.length = n * n
  normals : p.normals.length = n * n
  colors : p.colors.length = n * n

theorem Patch.WellFormed.of_bare {n : Nat} {p : Patch} (h : p.bare.WellFormed n) :
    p.WellFormed n :=
  ⟨h.indices, h.uvs, h.positions, h.normals, h.colors⟩

namespace Plan

variable {site : Site} (regular : site.source.Regular)
include regular

theorem tile_ne_mismatch (s : Square Float32) : tile site s ≠ .error .vertexCountMismatch := by
  refine Fault.bind_ne_error ?_ fun grid _ => Fault.bind_ne_error (regular.tileColors _ _) ?_
  · exact Fault.bind_ne_error (resolution_ne_mismatch _ _ _) fun n _ h => by cases h
  · exact fun colors _ h => by cases h

theorem tiles_ne_mismatch (ss : List (Square Float32)) :
    tiles site ss ≠ .error .vertexCountMismatch := by
  induction ss with
  | nil => exact fun h => by cases h
  | cons s ss ih =>
    refine Fault.bind_ne_error (tile_ne_mismatch regular s) fun t _ => ?_
    exact Fault.bind_ne_error ih fun ts _ h => by cases h

theorem skin_ne_mismatch (settings : Settings) (center : Point2 Float32) (size : Float32) :
    skin site settings center size ≠ .error .vertexCountMismatch := by
  unfold skin
  split
  · refine Fault.bind_ne_error ?_ fun c _ h => by cases h
    refine Fault.bind_ne_error (Quadtree.split_ne_mismatch _ _ _) fun leaves _ => ?_
    exact Fault.bind_ne_error (tiles_ne_mismatch regular leaves) fun ts _ h => by cases h
  · exact fun h => by cases h

variable {settings : Settings} {k : PatchKey} {size : Float32}

/-- the vertices that the source gives are those of the grid that is indexed -/
theorem count_of_vertices {baked : Bool} {v : Vertices} {n : Nat}
    (hv : site.source.vertices k.level (site.place size k.center.number) baked = .ok v)
    (hn : resolution site.cellVertices size k.level = .ok n) :
    v.positions.length = n * n ∧ v.normals.length = n * n ∧ v.colors.length = n * n := by
  obtain ⟨m, hm, counts⟩ := regular.laid hv
  obtain rfl : m = n := Except.ok.inj (hm.symm.trans hn)
  exact counts

/-- **No count differs in the plan of a patch.** -/
theorem patch_ne_mismatch : patch site settings k size ≠ .error .vertexCountMismatch := by
  refine Fault.bind_ne_error (regular.vertices _ _ _) fun v hv => ?_
  refine Fault.bind_ne_error (resolution_ne_mismatch _ _ _) fun n hn => ?_
  have count := (count_of_vertices regular hv hn).1
  simp only [count, ne_eq, not_true, if_false]
  exact Fault.bind_ne_error (skin_ne_mismatch regular _ _ _) fun s _ h => by cases h

/-- a patch is planned with the resolution of its size -/
theorem wellFormed_of_patch {p : Patch} (h : patch site settings k size = .ok p) :
    p.key = k ∧ ∃ n, resolution site.cellVertices size k.level = .ok n ∧ p.WellFormed n := by
  obtain ⟨v, hv, h⟩ := Fault.bind_eq_ok.mp h
  obtain ⟨n, hn, h⟩ := Fault.bind_eq_ok.mp h
  obtain ⟨positions, normals, colors⟩ := count_of_vertices regular hv hn
  simp only [positions, ne_eq, not_true, if_false] at h
  obtain ⟨s, -, h⟩ := Fault.bind_eq_ok.mp h
  cases h
  exact ⟨rfl, n, hn, rfl, rfl, positions, normals, colors⟩

end Plan

namespace Landscape

variable {l l' : Landscape} {acts : List Action}

/-! ## where a run stops -/

theorem fault_of_act {a : Action} {e : Fault} (h : l.act a = .error e) :
    ∃ r now name, a = .get r now name ∧ l.get r now = .error e := by
  cases a with
  | get r now name =>
    refine ⟨r, now, name, rfl, ?_⟩
    replace h : (l.get r now >>= _) = _ := h
    cases hget : l.get r now with
    | error e' =>
      rw [hget] at h
      cases h
      rfl
    | ok a =>
      rw [hget] at h
      cases h
  | _ => cases h

/-- a run that has no result stops at a request that has a fault -/
theorem fault_of_run {e : Fault} (h : l.run acts = .error e) :
    ∃ before r now name after l', acts = before ++ .get r now name :: after ∧
      l.run before = .ok l' ∧ l'.get r now = .error e := by
  induction acts generalizing l with
  | nil => cases h
  | cons a acts ih =>
    cases ha : l.act a with
    | error e' =>
      replace h : (l.act a >>= fun l => l.run acts) = .error e := h
      rw [ha] at h
      cases h
      obtain ⟨r, now, name, rfl, hget⟩ := fault_of_act ha
      exact ⟨[], r, now, name, acts, l, rfl, rfl, hget⟩
    | ok l₁ =>
      rw [run_cons acts ha] at h
      obtain ⟨before, r, now, name, after, l', rfl, hrun, hget⟩ := ih h
      exact ⟨a :: before, r, now, name, after, l', rfl, (run_cons before ha).trans hrun, hget⟩

theorem mem_requests_append {before after : List Action} {r : PatchRequest} {now : Nat}
    {name : Option String} :
    requests before ⊆ requests (before ++ .get r now name :: after) ∧
      r ∈ requests (before ++ .get r now name :: after) := by
  have all : requests (before ++ .get r now name :: after)
      = requests before ++ r :: requests after := List.filterMap_append
  rw [all]
  exact ⟨List.subset_append_left _ _, List.mem_append_right _ List.mem_cons_self⟩

/-! ## runs over flat terrain -/

section
variable {source : Source} {scene : Scene} {queue : BakeQueue} {settings : Settings}

/-- a request of a run is answered as planned -/
theorem bare_get_of_prefix {before after : List Action} {r : PatchRequest} {now : Nat}
    {name : Option String} (hl : create source scene queue settings = .ok l)
    (agree : SizesAgree (requests (before ++ .get r now name :: after)))
    (h : l.run before = .ok l') :
    (l'.get r now).map (fun a => a.1.val.bare)
      = Plan.patch ⟨source, scene, settings.world⟩ settings r.key r.size := by
  have asked : requests before ⊆ requests (before ++ .get r now name :: after) ∧
      r ∈ requests (before ++ .get r now name :: after) := mem_requests_append
  obtain ⟨hrs, hr⟩ := asked
  have look := (faithful_run hl h agree hrs).bare_get agree hr now
  have new := new_create hl
  rwa [(sameGround_run h).site, (sameGround_run h).settings, new.site, new.settings] at look

/-- **The parts of a patch fit together.**  In every run over flat terrain in which requests for one
center and level are for one size, no request finds that the vertices are not those that are
indexed.  Every answer has the key that was asked for, and it has one number of vertices along an
edge, that of its size at the effective level: its index buffer is the one for this number and for
the edge bits of its key, its texture coordinates are those for this number, and each of its arrays
has an element for every vertex of the grid.  Up to `2 ^ 16` vertices along an edge, every index is
that of a vertex. -/
theorem well_formed_of_run {t : FlatTerrain} (hl : create t.source scene queue settings = .ok l)
    (agree : SizesAgree (requests acts)) :
    l.run acts ≠ .error .vertexCountMismatch ∧
    ∀ a ∈ l.answers acts, a.patch.val.key = a.request.key ∧
      ∃ n, resolution t.cellVertices a.request.size a.request.key.level = .ok n ∧
        a.patch.val.positions.length = n * n ∧ a.patch.val.normals.length = n * n ∧
        a.patch.val.colors.length = n * n ∧
        a.patch.val.uvs.val.resolution = n ∧ a.patch.val.uvs.val.uvs.length = n * n ∧
        a.patch.val.indices.val.resolution = n ∧
        a.patch.val.indices.val.edgeBits = a.patch.val.key.seams.edgeBits ∧
        a.patch.val.indices.val.indices = Mesh.indices n a.patch.val.key.seams ∧
        (n ≤ 65536 → ∀ i ∈ a.patch.val.indices.val.indices.toList, i.toNat < n * n) := by
  refine ⟨?_, ?_⟩
  · intro hrun
    obtain ⟨before, r, now, name, after, l', rfl, hbefore, hget⟩ := fault_of_run hrun
    have look := bare_get_of_prefix hl agree hbefore
    rw [hget] at look
    exact Plan.patch_ne_mismatch t.regular look.symm
  · intro a ha
    obtain ⟨before, now, name, after, l', l'', rfl, hbefore, hget⟩ := get_of_answers ha
    have look := bare_get_of_prefix hl agree hbefore
    rw [hget] at look
    obtain ⟨hkey, n, hn, wellFormed⟩ := Plan.wellFormed_of_patch t.regular look.symm
    have parts := wellFormed.of_bare
    refine ⟨hkey, n, hn, parts.positions, parts.normals, parts.colors, ?_⟩
    rw [parts.uvs, parts.indices]
    refine ⟨rfl, Grid.length_uvs n, rfl, rfl, rfl, ?_⟩
    intro hle i hi
    exact Mesh.lt_of_mem_indices hle hi

end

/-- all patches have two intervals along an edge; one of them is stitched -/
theorem well_formed_of_run_copiedBack : ∃ l : Landscape, small = .ok l ∧
    SizesAgree (requests copiedBack) ∧ l.run copiedBack ≠ .error .vertexCountMismatch ∧
    ((l.answers copiedBack).map fun a => a.patch.val.indices.val.edgeBits) = [0, 0, 1, 0] ∧
    ∀ a ∈ l.answers copiedBack, a.patch.val.positions.length = 9 ∧
      ∀ i ∈ a.patch.val.indices.val.indices.toList, i.toNat < 9 := by
  obtain ⟨l, hl, ht⟩ : ∃ l, small = .ok l ∧ decide (
      ((l.answers copiedBack).map fun a => a.patch.val.indices.val.edgeBits) = [0, 0, 1, 0] ∧
        ∀ a ∈ l.answers copiedBack, a.patch.val.positions.length = 9) = true :=
    exists_ok_of_any (by decide +kernel)
  obtain ⟨stitched, nine⟩ := of_decide_eq_true ht
  have agree : SizesAgree (requests copiedBack) := by
    unfold SizesAgree
    decide +kernel
  obtain ⟨sound, answered⟩ := well_formed_of_run hl agree
  refine ⟨l, hl, agree, sound, stitched, fun a ha => ⟨nine a ha, fun i hi => ?_⟩⟩
  obtain ⟨-, n, -, positions, -, -, -, -, -, -, -, below⟩ := answered a ha
  rw [nine a ha] at positions
  have three : n = 3 := by nlinarith
  rw [three] at below
  exact below (by norm_num) i hi

end Landscape

end TerrainPatches
