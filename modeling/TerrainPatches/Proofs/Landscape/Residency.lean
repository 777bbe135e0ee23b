import TerrainPatches.Proofs.Landscape.Handles
import TerrainPatches.Proofs.Landscape.Painting

/-!
# What is baked is resident

A patch with a composite is drawn from the composite's target, and whether it can be is read off the
mark of the composite.  A bake uploads the target and sets the mark.  But the target is released in
many places: with the composite, and with the textures of every patch that is drawn from it, and
only a release of the composite takes the mark away.

So it matters who has the slot of a target: only the patches with its composite (`Owned`), the one
it was made for and the copies of that, cached or not.  Any of them is released together with the
composite, and then every mark is that of a composite whose target is on the device (`Backed`).
`resident_of_run` is what follows after any run.
-/

namespace TerrainPatches

/-! ## new composites -/

namespace Workshop

variable {w w' : Workshop} {xs : List Piece}

/-- the slots in the tables have been given -/
def Given (w : Workshop) : Prop := ∀ x ∈ w.pieces, x.slot < w.supply.next

theorem Given.makes (given : w.Given) (h : w.Makes w' xs) {x : Piece} (hx : x ∈ w'.pieces ++ xs) :
    x.slot < w'.supply.next :=
  (h.old_or_new hx).elim (fun old => (given x old).trans_le h.le) And.right

/-- made between `w` and `w'`, with a target that no table of `w'` gives out -/
structure NewComposite (w w' : Workshop) (c : Shared Composite) : Prop where
  named : w.supply.next ≤ c.id ∧ c.id < w'.supply.next
  target : w.supply.next ≤ c.val.target.id
  apart : ∀ x ∈ w'.pieces, x.slot ≠ c.val.target.id

end Workshop

namespace Landscape

variable {l l' : Landscape} {r : PatchRequest} {p : Shared Patch}

theorem newComposite_skin {skin : Skin} {baked : Bool} (given : l.workshop.Given)
    (h : l.skin r none baked = .ok (skin, l')) :
    ∀ c ∈ skin.composite, l.workshop.NewComposite l'.workshop c := by
  intro c hc
  cases baked with
  | false =>
    cases h
    cases hc
  | true =>
    obtain ⟨target, w₁, d, w₂, htarget, hd, hcomposite, -, rfl⟩ := bakedSkin_eq_ok h
    cases htarget
    obtain ⟨aim, made⟩ := Workshop.makes_composite hd
    rw [Option.mem_def, hcomposite] at hc
    cases hc
    have later : l.workshop.supply.next < w₂.supply.next := (made 0).le
    have slot : d.target.id = l.workshop.supply.next := congrArg Shared.id aim
    refine ⟨⟨later.le, (Nat.lt_succ_self _).trans (Nat.lt_succ_self _)⟩, slot.ge, fun x hx => ?_⟩
    show x.slot ≠ d.target.id
    rw [slot]
    -- the composite is put together after its target was named
    rcases (made 0).old_or_new (List.mem_append_left _ hx) with old | ⟨new, -⟩
    · exact (given x old).ne
    · exact (Nat.lt_of_succ_le new).ne'

theorem newComposite_build {patch : Patch} (given : l.workshop.Given)
    (h : l.build r none = .ok (patch, l')) :
    ∀ c ∈ patch.composite, l.workshop.NewComposite l'.workshop c := by
  obtain ⟨shape, l₁, n, skin, hshape, -, -, hskin, rfl⟩ := build_eq_ok h
  have made := ((makes_shape hshape 0).trans
    (l₁.workshop.makes_indexBuffer n r.seams)).trans (Workshop.makes_uvBuffer _ n)
  intro c hc
  have new := newComposite_skin (l := l₁.withBuffers n r.seams)
    (fun x hx => given.makes made (List.mem_append_left _ hx)) hskin c hc
  exact ⟨⟨made.le.trans new.named.1, new.named.2⟩, made.le.trans new.target, new.apart⟩

/-- a patch that was not cached has the composite of its sibling, or a new one or none -/
theorem composite_of_miss {now : Nat} (hl : l.Kept) (given : l.workshop.Given)
    (h : l.miss r now = .ok (p, l')) : ∃ xs, l.workshop.Makes l'.workshop xs ∧
      ((∃ q ∈ l.patches, p.val.composite = q.val.composite ∧
          p.patchPieces ⊆ xs ++ q.patchPieces) ∨
        p.patchPieces ⊆ xs ∧ ∀ c ∈ p.val.composite, l.workshop.NewComposite l'.workshop c) := by
  obtain ⟨patch, l₁, hbuild, rfl, rfl⟩ := miss_eq_ok h
  obtain ⟨xs, made, parts⟩ := makes_build hbuild l₁.workshop.supply.next
  have all := made.trans (l₁.workshop.makes_name patch)
  rw [List.append_nil] at all
  refine ⟨xs, all, ?_⟩
  cases hq : l.sibling? r.key.sample with
  | some q =>
    rw [hq] at hbuild parts
    rw [Option.toList_some, List.flatMap_singleton] at parts
    obtain ⟨k, hk, -⟩ := mem_of_sibling? hl.ordered hq
    have cached := l.objects_subset (ExpiringCache.mem_objects.mpr ⟨k, hk⟩)
    exact .inl ⟨q, cached, (build_painted hbuild).2, parts⟩
  | none =>
    rw [hq] at hbuild parts
    rw [Option.toList_none, List.flatMap_nil, List.append_nil] at parts
    refine .inr ⟨parts, fun c hc => ?_⟩
    have new := newComposite_build given hbuild c hc
    exact ⟨⟨new.named.1, new.named.2.trans (Nat.lt_succ_self _)⟩, new.target, new.apart⟩

/-! ## the owners of a target -/

/-- the composites of some patches -/
def compositesOf (ps : List (Shared Patch)) : List (Shared Composite) :=
  ps.filterMap fun p => p.val.composite

variable {ps : List (Shared Patch)} {c : Shared Composite}

theorem mem_compositesOf : c ∈ compositesOf ps ↔ ∃ p ∈ ps, p.val.composite = some c :=
  List.mem_filterMap

theorem compositesOf_cons (p : Shared Patch) (ps : List (Shared Patch)) :
    compositesOf (p :: ps) = p.val.composite.toList ++ compositesOf ps := by
  unfold compositesOf
  rw [List.filterMap_cons]
  cases p.val.composite <;> rfl

theorem compositesOf_subset {qs : List (Shared Patch)} (h : ps ⊆ qs) :
    compositesOf ps ⊆ compositesOf qs :=
  List.filterMap_subset _ h

/-- among these patches, those and only those with its composite have the slot of a target, and no
table has it -/
structure Owned (w : Workshop) (ps : List (Shared Patch)) : Prop where
  given : w.Given
  slots : ∀ p ∈ ps, ∀ slot ∈ p.val.everySlot, slot < w.supply.next
  named : ∀ c ∈ compositesOf ps, c.id < w.supply.next
  single : ∀ c ∈ compositesOf ps, ∀ d ∈ compositesOf ps, c.id = d.id → c = d
  apart : ∀ c ∈ compositesOf ps, ∀ x ∈ w.pieces, x.slot ≠ c.val.target.id
  shared : ∀ c ∈ compositesOf ps, ∀ p ∈ ps, c.val.target.id ∈ p.val.everySlot →
    p.val.composite = some c

theorem owned_initial : Owned .initial [] where
  given _ hx := absurd hx List.not_mem_nil
  slots _ hp := absurd hp List.not_mem_nil
  named _ hc := absurd hc List.not_mem_nil
  single _ hc := absurd hc List.not_mem_nil
  apart _ hc := absurd hc List.not_mem_nil
  shared _ hc := absurd hc List.not_mem_nil

section
variable {w w' : Workshop} {xs : List Piece}

theorem Owned.target_lt (h : Owned w ps) (hc : c ∈ compositesOf ps) :
    c.val.target.id < w.supply.next := by
  obtain ⟨p, hp, hpc⟩ := mem_compositesOf.mp hc
  refine h.slots p hp _ (List.mem_append_right _ (List.mem_flatMap.mpr ⟨c, ?_, List.mem_cons_self⟩))
  exact Option.mem_toList.mpr hpc

/-- nothing that is made later has the slot of the target -/
theorem Owned.not_made (h : Owned w ps) (made : w.Makes w' xs) (hc : c ∈ compositesOf ps) :
    ∀ x ∈ w'.pieces ++ xs, x.slot ≠ c.val.target.id := by
  intro x hx
  rcases made.old_or_new hx with old | ⟨new, -⟩
  · exact h.apart c hc x old
  · exact ((h.target_lt hc).trans_le new).ne'

theorem Owned.narrow (h : Owned w ps) (supply : w'.supply = w.supply)
    (pieces : w'.pieces ⊆ w.pieces) : Owned w' ps := by
  refine ⟨fun x hx => ?_, ?_, ?_, h.single, fun c hc x hx => h.apart c hc x (pieces hx), h.shared⟩
  · rw [supply]
    exact h.given x (pieces hx)
  · rw [supply]
    exact h.slots
  · rw [supply]
    exact h.named

theorem Owned.makes (h : Owned w ps) (made : w.Makes w' xs) : Owned w' ps where
  given _ hx := h.given.makes made (List.mem_append_left _ hx)
  slots p hp slot hs := (h.slots p hp slot hs).trans_le made.le
  named c hc := (h.named c hc).trans_le made.le
  single := h.single
  apart _ hc x hx := h.not_made made hc x (List.mem_append_left _ hx)
  shared := h.shared

/-- a patch that is put together from new pieces and those of another patch, with its composite -/
theorem Owned.copy (h : Owned w ps) (made : w.Makes w' xs) {q : Shared Patch} (hq : q ∈ ps)
    (same : p.val.composite = q.val.composite) (parts : p.patchPieces ⊆ xs ++ q.patchPieces) :
    Owned w' (p :: ps) := by
  have old := h.makes made
  have known : compositesOf (p :: ps) ⊆ compositesOf ps := by
    intro c hc
    rw [compositesOf_cons, same, List.mem_append, Option.mem_toList] at hc
    exact hc.elim (fun hc => mem_compositesOf.mpr ⟨q, hq, hc⟩) id
  refine ⟨old.given, ?_, fun c hc => old.named c (known hc),
    fun c hc d hd => old.single c (known hc) d (known hd), fun c hc => old.apart c (known hc), ?_⟩
  · refine List.forall_mem_cons.mpr ⟨fun slot hs => ?_, old.slots⟩
    obtain ⟨x, hx, rfl⟩ := mem_everySlot_iff.mp hs
    rcases List.mem_append.mp (parts hx) with new | copied
    · exact h.given.makes made (List.mem_append_right _ new)
    · exact old.slots q hq _ (mem_everySlot_iff.mpr ⟨x, copied, rfl⟩)
  · refine fun c hc => List.forall_mem_cons.mpr ⟨fun hs => ?_, old.shared c (known hc)⟩
    obtain ⟨x, hx, slot⟩ := mem_everySlot_iff.mp hs
    rcases List.mem_append.mp (parts hx) with new | copied
    · exact absurd slot (h.not_made made (known hc) x (List.mem_append_right _ new))
    · rw [same]
      exact h.shared c (known hc) q hq (mem_everySlot_iff.mpr ⟨x, copied, slot⟩)

/-- a patch that is put together from new pieces, perhaps with a new composite -/
theorem Owned.sample (h : Owned w ps) (made : w.Makes w' xs) (parts : p.patchPieces ⊆ xs)
    (new : ∀ c ∈ p.val.composite, w.NewComposite w' c) : Owned w' (p :: ps) := by
  have old := h.makes made
  have either {c} (hc : c ∈ compositesOf (p :: ps)) :
      p.val.composite = some c ∨ c ∈ compositesOf ps := by
    rwa [compositesOf_cons, List.mem_append, Option.mem_toList] at hc
  have later {c d} (hc : p.val.composite = some c) (hd : d ∈ compositesOf ps) : d.id < c.id :=
    (h.named d hd).trans_le (new c hc).named.1
  refine ⟨old.given, ?_, ?_, ?_, ?_, ?_⟩
  · refine List.forall_mem_cons.mpr ⟨fun slot hs => ?_, old.slots⟩
    obtain ⟨x, hx, rfl⟩ := mem_everySlot_iff.mp hs
    exact h.given.makes made (List.mem_append_right _ (parts hx))
  · exact fun c hc => (either hc).elim (fun hc => (new c hc).named.2) (old.named c)
  · intro c hc d hd same
    rcases either hc with hc | hc <;> rcases either hd with hd | hd
    · exact Option.some.inj (hc.symm.trans hd)
    · exact absurd same (later hc hd).ne'
    · exact absurd same (later hd hc).ne
    · exact old.single c hc d hd same
  · exact fun c hc => (either hc).elim (fun hc => (new c hc).apart) (old.apart c)
  · intro c hc
    rcases either hc with hc | hc
    · refine List.forall_mem_cons.mpr ⟨fun _ => hc, fun q hq hs => ?_⟩
      exact absurd (h.slots q hq _ hs) (new c hc).target.not_gt
    · refine List.forall_mem_cons.mpr ⟨fun hs => ?_, old.shared c hc⟩
      obtain ⟨x, hx, slot⟩ := mem_everySlot_iff.mp hs
      exact absurd slot (h.not_made made hc x (List.mem_append_right _ (parts hx)))

end

/-- a request makes no target the slot of a patch that does not have its composite -/
theorem Owned.miss {now : Nat} (h : Owned l.workshop ps) (hl : l.Kept) (patches : l.patches ⊆ ps)
    (hmiss : l.miss r now = .ok (p, l')) : Owned l'.workshop (p :: ps) := by
  obtain ⟨xs, made, ⟨q, hq, same, parts⟩ | ⟨parts, new⟩⟩ := composite_of_miss hl h.given hmiss
  · exact h.copy made (patches hq) same parts
  · exact h.sample made parts new

/-! ## marks of composites -/

/-- every mark is that of a composite whose target is on the device -/
def Backed (b : Bakery) (cs : List (Shared Composite)) : Prop :=
  ∀ id ∈ b.baked, ∃ c ∈ cs, c.id = id ∧ b.device.isResident c.val.target.id = true

section
variable {b : Bakery} {cs : List (Shared Composite)}

theorem Backed.mono (h : Backed b cs) {ds : List (Shared Composite)} (hs : cs ⊆ ds) :
    Backed b ds := by
  intro id hid
  obtain ⟨c, hc, resident⟩ := h id hid
  exact ⟨c, hs hc, resident⟩

theorem Backed.option (h : Backed b cs) {α : Type} {o : Option α} {ms : α → List Bakery.Move}
    (some : ∀ a ∈ o, Backed (b.moveAll (ms a)) cs) :
    Backed (b.moveAll (o.toList.flatMap ms)) cs := by
  cases o with
  | none => exact h
  | some a =>
    rw [Option.toList_some, List.flatMap_singleton]
    exact some a rfl

theorem Backed.upload (h : Backed b cs) (us : List Upload) :
    Backed (b.move (.upload us)) cs := by
  intro id hid
  obtain ⟨c, hc, rfl, resident⟩ := h id hid
  exact ⟨c, hc, rfl, resident_move (m := .upload us) resident List.not_mem_nil⟩

/-- a bake uploads the target before it sets the mark -/
theorem Backed.bake (h : Backed b cs) (hc : c ∈ cs) : Backed (b.move (.bake c)) cs := by
  intro id hid
  replace hid : id ∈ (b.bake c).2.baked := hid
  show ∃ d ∈ cs, d.id = id ∧ (b.bake c).2.device.isResident d.val.target.id = true
  unfold Bakery.bake at hid ⊢
  cases hb : b.isBaked c with
  | true =>
    simp only [hb, if_true] at hid ⊢
    exact h id hid
  | false =>
    simp only [hb, Bool.false_eq_true, if_false] at hid ⊢
    rcases List.mem_cons.mp hid with rfl | old
    · exact ⟨c, hc, rfl, (b.device.isResident_uploadAll _ _).mpr (.inr List.mem_cons_self)⟩
    · obtain ⟨d, hd, same, resident⟩ := h id old
      exact ⟨d, hd, same, (b.device.isResident_uploadAll _ _).mpr (.inl resident)⟩

/-- a release that takes the mark away with the target -/
theorem Backed.release (h : Backed b cs) {slots ids : List ObjectId}
    (marks : ∀ c ∈ cs, c.val.target.id ∈ slots → c.id ∈ ids) :
    Backed (b.moveAll [.release slots, .unbake ids]) cs := by
  intro id hid
  obtain ⟨old, kept⟩ := List.mem_filter.mp hid
  obtain ⟨c, hc, rfl, resident⟩ := h id old
  rw [Bool.not_eq_true', List.contains_eq_mem, decide_eq_false_iff_not] at kept
  exact ⟨c, hc, rfl, resident_move (m := .release slots) resident fun hs => kept (marks c hc hs)⟩

/-- a release of no target -/
theorem Backed.spare (h : Backed b cs) {slots : List ObjectId}
    (spared : ∀ c ∈ cs, c.val.target.id ∉ slots) : Backed (b.move (.release slots)) cs := by
  intro id hid
  obtain ⟨c, hc, rfl, resident⟩ := h id hid
  exact ⟨c, hc, rfl, resident_move (m := .release slots) resident (spared c hc)⟩

end

/-! ## one action -/

/-- a release of a patch takes the marks of the targets that it releases away -/
theorem Owned.mem_compositeIds {w : Workshop} (h : Owned w ps) (hc : c ∈ compositesOf ps)
    (hp : p ∈ ps) (hs : c.val.target.id ∈ p.val.slots) : c.id ∈ p.val.compositeIds := by
  have same := h.shared c hc p hp (p.val.slots_subset hs)
  exact List.mem_map_of_mem (Option.mem_toList.mpr same)

theorem Owned.not_mem_buffers {w : Workshop} (h : Owned w ps) (hc : c ∈ compositesOf ps) :
    c.val.target.id ∉ w.buffers.slots := by
  intro hs
  obtain ⟨x, hx, same⟩ := w.piece_of_buffers hs
  exact h.apart c hc x hx same

theorem Owned.not_mem_tileGrids {w : Workshop} (h : Owned w ps) (hc : c ∈ compositesOf ps) :
    c.val.target.id ∉ w.tileGridSlots := by
  intro hs
  obtain ⟨x, hx, same⟩ := w.piece_of_tileGrids hs
  exact h.apart c hc x hx same

/-- all that is known of what has been answered so far: the patches in use and the composites that
wait are among `ps`, and every mark has its target on the device -/
structure Tended (l : Landscape) (ps : List (Shared Patch)) : Prop where
  kept : l.Kept
  patches : l.patches ⊆ ps
  waiting : l.bakery.queue.waiting ⊆ compositesOf ps
  owned : Owned l.workshop ps
  backed : Backed l.bakery (compositesOf ps)

/-- **No action releases a target and leaves the mark.** -/
theorem Tended.backed_moves (h : l.Tended ps) (a : Action) :
    Backed (l.bakery.moveAll (l.moves a)) (compositesOf ps) := by
  have held {name : String} {p : Shared Patch} (hp : l.holders.get? name = some p) : p ∈ ps :=
    h.patches (mem_patches_of_held hp)
  cases a with
  | compile name => exact h.backed.option fun p _ => h.backed.upload p.val.uploads
  | compileQueued limit =>
    refine Bakery.moveAll_induction (P := fun b => Backed b _) h.backed fun m hm b hb => ?_
    obtain ⟨p, -, rfl⟩ := List.mem_map.mp hm
    exact hb.upload _
  | upload us => exact h.backed.upload us
  | renderFrame lasts =>
    refine Bakery.moveAll_induction (P := fun b => Backed b _) h.backed fun m hm b hb => ?_
    obtain ⟨c, hc, rfl⟩ := List.mem_map.mp hm
    exact hb.bake (h.waiting (l.bakery.taken_subset lasts hc))
  | release =>
    refine h.backed.release fun c hc hs => ?_
    rcases List.mem_append.mp hs with hs | hs
    · rcases List.mem_append.mp hs with hs | hs
      · obtain ⟨p, hp, hs⟩ := List.mem_flatMap.mp hs
        have marks := h.owned.mem_compositeIds hc (h.patches (l.objects_subset hp)) hs
        exact List.mem_flatMap.mpr ⟨p, hp, marks⟩
      · exact absurd hs (h.owned.not_mem_buffers hc)
    · exact absurd hs (h.owned.not_mem_tileGrids hc)
  | releasePatch name =>
    refine h.backed.option fun p hp => h.backed.release fun c hc hs => ?_
    exact h.owned.mem_compositeIds hc (held hp) hs
  | releaseComposite name =>
    refine h.backed.option fun p hp => h.backed.option fun d hd => ?_
    refine h.backed.release fun c hc hs => ?_
    have slot : c.val.target.id ∈ p.val.everySlot := List.mem_append_right _
      (List.mem_flatMap.mpr ⟨d, Option.mem_toList.mpr hd, d.val.slots_subset hs⟩)
    cases hd.symm.trans (h.owned.shared c hc p (held hp) slot)
    exact List.mem_cons_self
  | releaseBuffers => exact h.backed.spare fun c hc => h.owned.not_mem_buffers hc
  | releaseTileGrids => exact h.backed.spare fun c hc => h.owned.not_mem_tileGrids hc
  | _ => exact h.backed

theorem Tended.act {a : Action} (h : l.Tended ps) (ha : l.act a = .ok l') :
    ∃ qs, ps ⊆ qs ∧ l'.Tended qs := by
  have next : ∃ qs, ps ⊆ qs ∧ l'.patches ⊆ qs ∧ Owned l'.workshop qs := by
    rcases narrows_act ha with narrows | ⟨r, now, p, l₁, hmiss, hw, patches⟩
    · exact ⟨ps, List.Subset.refl _, List.Subset.trans narrows.patches h.patches,
        h.owned.narrow narrows.supply narrows.pieces⟩
    · refine ⟨p :: ps, List.subset_cons_self _ _,
        List.Subset.trans patches (List.cons_subset_cons _ h.patches), ?_⟩
      rw [hw]
      exact h.owned.miss h.kept h.patches hmiss
  obtain ⟨qs, more, patches, owned⟩ := next
  refine ⟨qs, more, h.kept.act ha, patches, fun c hc => ?_, owned, ?_⟩
  · rcases waiting_act ha hc with waited | ⟨p, hp, hpc⟩
    · exact compositesOf_subset more (h.waiting waited)
    · exact mem_compositesOf.mpr ⟨p, patches hp, hpc⟩
  · obtain ⟨queue, hb⟩ := moveAll_act ha
    rw [hb]
    exact (h.backed_moves a).mono (compositesOf_subset more)

/-- what is answered is in use afterwards -/
theorem mem_patches_of_answer {a : Action} {answer : Answer} (ha : l.act a = .ok l')
    (h : l.answer? a = some answer) : answer.patch ∈ l'.patches := by
  obtain ⟨now, name, l₁, rfl, hget⟩ := get_of_answer? h
  obtain ⟨p, l₂, hget', same⟩ := get_of_act ha
  cases hget.symm.trans hget'
  refine l'.objects_subset ?_
  rw [same.cache]
  exact mem_objects_of_get hget

/-! ## after any run -/

section
variable {source : Source} {scene : Scene} {bakes : BakeSettings} {queue : BakeQueue}
  {settings : Settings} {l₀ : Landscape} {acts : List Action}

theorem tended_create (hq : BakeQueue.ofSettings bakes = .ok queue)
    (hl : create source scene queue settings = .ok l) : l.Tended [] := by
  obtain rfl := Bakery.new_ofSettings hq
  obtain ⟨patches, bakery⟩ := unused_create hl
  refine ⟨kept_create hl, List.subset_nil.mpr patches, ?_, ?_, ?_⟩
  · rw [bakery]
    exact List.nil_subset _
  · rw [(new_create hl).workshop]
    exact owned_initial
  · rw [bakery]
    exact fun id hid => absurd hid List.not_mem_nil

theorem tended_run (hq : BakeQueue.ofSettings bakes = .ok queue)
    (hl : create source scene queue settings = .ok l₀) (h : l₀.run acts = .ok l) :
    ∃ ps, l.Tended ps ∧ ∀ a ∈ l₀.answers acts, a.patch ∈ ps := by
  have start : ∃ ps, l₀.Tended ps ∧ ∀ a ∈ ([] : List Answer), a.patch ∈ ps :=
    ⟨[], tended_create hq hl, fun a ha => absurd ha List.not_mem_nil⟩
  refine log_induction (P := fun l log => ∃ ps, l.Tended ps ∧ ∀ a ∈ log, a.patch ∈ ps) h
    (kept_create hl) start ?_
  rintro s - l' log - hact ⟨ps, tended, known⟩
  obtain ⟨qs, more, tended⟩ := tended.act hact
  refine ⟨qs, tended, fun a ha => ?_⟩
  rcases List.mem_append.mp ha with old | new
  · exact more (known a old)
  · exact tended.patches (mem_patches_of_answer hact (Option.mem_toList.mp new))

/-- an answer draws the target of its composite and nothing else -/
theorem textures_of_answer (hl : create source scene queue settings = .ok l₀) {a : Answer}
    (ha : a ∈ l₀.answers acts) (hc : a.patch.val.composite = some c) :
    a.patch.val.textures = [c.val.target] := by
  obtain ⟨before, now, name, after, l', l'', rfl, hrun, hget⟩ := get_of_answers ha
  obtain ⟨r', -, -, painted⟩ := paintedFor_of_get hl hrun hget
  obtain ⟨pass, hpass, diffuse, normal, blendMap⟩ := painted.skin.draws c hc
  rw [Patch.textures, hpass, List.flatMap_singleton, Pass.textures, diffuse, normal, blendMap]
  rfl

/-- **What is baked is resident.**  After any run, whatever was built, forgotten, released and
baked in it, the target of a composite that counts as baked is on the device.  Every patch that was
answered with this composite, a copy or not and cached or not, samples that target and nothing else.
So no patch is drawn from a released texture while its composite counts as baked. -/
theorem resident_of_run (hq : BakeQueue.ofSettings bakes = .ok queue)
    (hl : create source scene queue settings = .ok l₀) (h : l₀.run acts = .ok l) :
    ∀ a ∈ l₀.answers acts, ∀ c, a.patch.val.composite = some c → l.bakery.isBaked c = true →
      l.bakery.device.isResident c.val.target.id = true ∧
      ∀ b ∈ l₀.answers acts, ∀ d, b.patch.val.composite = some d → d.id = c.id →
        b.patch.val.textures = [c.val.target] := by
  obtain ⟨ps, tended, known⟩ := tended_run hq hl h
  have composite {a : Answer} (ha : a ∈ l₀.answers acts) {c : Shared Composite}
      (hc : a.patch.val.composite = some c) : c ∈ compositesOf ps :=
    mem_compositesOf.mpr ⟨a.patch, known a ha, hc⟩
  intro a ha c hc baked
  refine ⟨?_, fun b hb d hd same => ?_⟩
  · obtain ⟨d, hd, same, resident⟩ := tended.backed c.id (List.contains_iff_mem.mp baked)
    rwa [← tended.owned.single d hd c (composite ha hc) same]
  · rw [← tended.owned.single d (composite hb hd) c (composite ha hc) same]
    exact textures_of_answer hl hb hd

end

/-- a composite is baked, released with a copy of its patch that is no longer cached, and baked
again for the patch -/
def rebaked : List Action :=
  [.get (requestAtOrigin Scalar.two 0) 0 "patch", .get (requestAtOrigin Scalar.two 1) 0 "copy",
    .renderFrame 1, .clear, .releasePatch "copy", .requestBake "patch", .renderFrame 0]

theorem resident_of_run_rebaked : ∃ queue l₀ l, BakeQueue.ofSettings ⟨2, 0⟩ = .ok queue ∧
    small = .ok l₀ ∧ l₀.run rebaked = .ok l ∧ l.bakery.bakes = 2 ∧
    ∃ a ∈ l₀.answers rebaked, ∃ c, a.patch.val.composite = some c ∧ l.bakery.isBaked c = true ∧
      l.bakery.device.isResident c.val.target.id = true ∧
      ∃ b ∈ l₀.answers rebaked, b.patch.val.copied = true ∧
        b.patch.val.textures = [c.val.target] := by
  obtain ⟨l₀, hl, ht⟩ : ∃ l₀, small = .ok l₀ ∧ ((l₀.run rebaked).toOption.any fun l =>
      l.bakery.bakes == 2 && (l₀.answers rebaked).any fun a => a.patch.val.composite.any fun c =>
        l.bakery.isBaked c && (l₀.answers rebaked).any fun b => b.patch.val.copied &&
          b.patch.val.composite.any fun d => d.id == c.id) = true :=
    exists_ok_of_any (by decide +kernel)
  obtain ⟨l, h, ht⟩ := exists_ok_of_any ht
  obtain ⟨twice, ht⟩ := (Bool.and_eq_true _ _).mp ht
  obtain ⟨a, ha, ht⟩ := List.any_eq_true.mp ht
  obtain ⟨c, hc, ht⟩ := (Option.any_eq_true _ _).mp ht
  obtain ⟨baked, ht⟩ := (Bool.and_eq_true _ _).mp ht
  obtain ⟨b, hb, ht⟩ := List.any_eq_true.mp ht
  obtain ⟨copied, ht⟩ := (Bool.and_eq_true _ _).mp ht
  obtain ⟨d, hd, same⟩ := (Option.any_eq_true _ _).mp ht
  have hq : BakeQueue.ofSettings ⟨2, 0⟩ = .ok ⟨[], [], 2, 0⟩ := rfl
  obtain ⟨resident, drawn⟩ := resident_of_run hq hl h a ha c hc baked
  exact ⟨_, l₀, l, hq, hl, h, beq_iff_eq.mp twice, a, ha, c, hc, baked, resident, b, hb, copied,
    drawn b hb d hd (beq_iff_eq.mp same)⟩

end Landscape

end TerrainPatches
