import TerrainPatches.Proofs.Landscape.Release

/-!
# The handles of a device

Every handle that was created is resident under one slot or has been deleted once, and no slot has
two (`Device.Sound`).  Uploads and releases keep this, whatever is uploaded or released, so no
handle is deleted twice and what is resident is live.  An upload says how many handles it has
created and a release how many it has deleted (`Device.Creates`, `Device.Deletes`).
-/

namespace TerrainPatches

namespace Device

/-- created and not deleted -/
def Live (d : Device) (handle : Nat) : Prop :=
  1 ≤ handle ∧ handle ≤ d.created ∧ handle ∉ d.deleted

/-- each handle that was created is resident under one slot or was deleted once -/
structure Sound (d : Device) : Prop where
  slots : (d.resident.map (·.1)).Nodup
  handles : (d.resident.map (·.2) ++ d.deleted).Perm (List.range' 1 d.created)

variable {d : Device}

/-! ## one slot -/

theorem sound_initial : Sound initial := ⟨List.nodup_nil, .refl _⟩

theorem Sound.create (h : d.Sound) {u : Upload} (new : d.isResident u.slot = false) :
    (d.create u).Sound where
  slots := by
    refine List.nodup_cons.mpr ⟨fun hs => ?_, h.slots⟩
    obtain ⟨e, he, hslot⟩ := List.mem_map.mp hs
    rw [d.isResident_iff.mpr ⟨e, he, hslot⟩] at new
    cases new
  handles := by
    show ((d.created + 1) :: (d.resident.map (·.2) ++ d.deleted)).Perm
      (List.range' 1 (d.created + 1))
    have last : List.range' 1 (d.created + 1) = List.range' 1 d.created ++ [d.created + 1] := by
      rw [List.range'_concat, Nat.one_mul, Nat.add_comm 1]
    rw [last]
    exact (h.handles.cons _).trans (List.perm_append_singleton _ _).symm

theorem Sound.upload (h : d.Sound) (u : Upload) : (d.upload u).2.Sound := by
  cases new : d.isResident u.slot with
  | true =>
    rw [upload_of_resident new]
    exact h
  | false =>
    rw [upload_of_not_resident new]
    exact h.create new

/-- the slot of a handle stands once among the slots -/
theorem Sound.resident_perm (h : d.Sound) {slot : ObjectId} {handle : Nat}
    (hs : d.handle? slot = some handle) :
    d.resident.Perm ((slot, handle) :: d.resident.filter fun e => e.1 != slot) := by
  obtain ⟨before, after, hres, hbefore⟩ := List.lookup_eq_some_iff.mp hs
  have slots := h.slots
  rw [hres, List.map_append, List.map_cons, List.nodup_middle] at slots
  have others : ∀ e ∈ before ++ after, (e.1 != slot) = true := by
    intro e he
    rw [bne_iff_ne]
    rintro rfl
    refine (List.nodup_cons.mp slots).1 ?_
    rw [← List.map_append]
    exact List.mem_map.mpr ⟨e, he, rfl⟩
  have kept : d.resident.filter (fun e => e.1 != slot) = before ++ after := by
    rw [hres, List.filter_append, List.filter_cons_of_neg (by simp), ← List.filter_append]
    exact List.filter_eq_self.mpr others
  rw [kept, hres]
  exact List.perm_middle

theorem Sound.release (h : d.Sound) (slot : ObjectId) : (d.release slot).2.Sound := by
  cases hs : d.handle? slot with
  | none =>
    simp only [Device.release, hs]
    exact h
  | some handle =>
    have perm := h.resident_perm hs
    simp only [Device.release, hs]
    refine ⟨h.slots.sublist (List.filter_sublist.map _), ?_⟩
    exact (List.perm_middle.trans ((perm.map (·.2)).symm.append_right d.deleted)).trans h.handles

/-! ## many slots -/

theorem Sound.uploadAll (h : d.Sound) (us : List Upload) : (d.uploadAll us).2.Sound := by
  induction us generalizing d with
  | nil => exact h
  | cons u us ih => exact ih (h.upload u)

theorem Sound.releaseAll (h : d.Sound) (slots : List ObjectId) : (d.releaseAll slots).2.Sound := by
  induction slots generalizing d with
  | nil => exact h
  | cons slot slots ih => exact ih (h.release slot)

/-! ## what is resident -/

theorem mem_resident {slot : ObjectId} {handle : Nat} (h : d.handle? slot = some handle) :
    (slot, handle) ∈ d.resident :=
  mem_of_lookup h

theorem Sound.nodup (h : d.Sound) : (d.resident.map (·.2) ++ d.deleted).Nodup :=
  h.handles.nodup_iff.mpr (List.nodup_range' ..)

theorem Sound.mem_iff (h : d.Sound) {handle : Nat} :
    handle ∈ d.resident.map (·.2) ∨ handle ∈ d.deleted ↔ 1 ≤ handle ∧ handle ≤ d.created := by
  rw [← List.mem_append, h.handles.mem_iff, List.mem_range'_1, Nat.lt_one_add_iff]

/-- a resident handle is live -/
theorem Sound.live (h : d.Sound) {slot : ObjectId} {handle : Nat}
    (hs : d.handle? slot = some handle) : d.Live handle := by
  have resident : handle ∈ d.resident.map (·.2) := List.mem_map_of_mem (mem_resident hs)
  obtain ⟨first, last⟩ := h.mem_iff.mp (.inl resident)
  exact ⟨first, last, List.disjoint_of_nodup_append h.nodup resident⟩

/-- no handle is resident under two slots -/
theorem Sound.slot_unique (h : d.Sound) {s t : ObjectId} {handle : Nat}
    (hs : d.handle? s = some handle) (ht : d.handle? t = some handle) : s = t := by
  have handles := (List.nodup_append.mp h.nodup).1
  exact congrArg Prod.fst (List.inj_on_of_nodup_map handles (mem_resident hs) (mem_resident ht) rfl)

/-- a live handle is resident -/
theorem Sound.exists_slot (h : d.Sound) {handle : Nat} (live : d.Live handle) :
    ∃ slot, d.handle? slot = some handle := by
  obtain ⟨first, last, kept⟩ := live
  have resident := (h.mem_iff.mpr ⟨first, last⟩).resolve_right kept
  obtain ⟨⟨slot, handle⟩, he, rfl⟩ := List.mem_map.mp resident
  cases hs : d.handle? slot with
  | none => exact absurd (List.lookup_eq_none_iff.mp hs _ he) (by simp)
  | some other =>
    have same := List.inj_on_of_nodup_map h.slots (mem_resident hs) he rfl
    cases same
    exact ⟨slot, hs⟩

theorem Sound.deleted_le (h : d.Sound) : d.deleted.length ≤ d.created := by
  have all := h.handles.length_eq
  rw [List.length_append, List.length_range'] at all
  omega

/-! ## counts -/

/-- between `d` and `d'` this many handles were created and none was deleted -/
def Creates (d d' : Device) (n : Nat) : Prop :=
  d'.created = d.created + n ∧ d'.deleted = d.deleted

/-- between `d` and `d'` this many handles were deleted and none was created -/
def Deletes (d d' : Device) (n : Nat) : Prop :=
  d'.created = d.created ∧ ∃ gone, gone.length = n ∧ d'.deleted = gone ++ d.deleted

variable (d)

theorem creates_upload (u : Upload) : d.Creates (d.upload u).2 (d.upload u).1.toNat := by
  unfold upload
  split <;> exact ⟨rfl, rfl⟩

theorem creates_uploadAll (us : List Upload) : d.Creates (d.uploadAll us).2 (d.uploadAll us).1 := by
  induction us generalizing d with
  | nil => exact ⟨rfl, rfl⟩
  | cons u us ih =>
    obtain ⟨created, deleted⟩ := d.creates_upload u
    obtain ⟨created', deleted'⟩ := ih (d.upload u).2
    exact ⟨by rw [uploadAll, created', created, Nat.add_assoc], deleted'.trans deleted⟩

theorem deletes_releaseAll (slots : List ObjectId) :
    d.Deletes (d.releaseAll slots).2 (d.releaseAll slots).1 := by
  obtain ⟨gone, h⟩ := d.releaseAll_eq_without slots
  rw [h]
  exact ⟨rfl, gone, rfl, rfl⟩

theorem isResident_upload (u : Upload) (slot : ObjectId) :
    (d.upload u).2.isResident slot = true ↔ d.isResident slot = true ∨ slot = u.slot := by
  cases new : d.isResident u.slot with
  | true =>
    rw [upload_of_resident new]
    refine ⟨.inl, fun h => h.elim id ?_⟩
    rintro rfl
    exact new
  | false =>
    rw [upload_of_not_resident new, isResident_iff, isResident_iff, or_comm, eq_comm (a := slot)]
    exact List.exists_mem_cons_iff _ _ _

theorem isResident_uploadAll (us : List Upload) (slot : ObjectId) :
    (d.uploadAll us).2.isResident slot = true ↔
      d.isResident slot = true ∨ slot ∈ us.map (·.slot) := by
  induction us generalizing d with
  | nil => exact (or_iff_left List.not_mem_nil).symm
  | cons u us ih =>
    show ((d.upload u).2.uploadAll us).2.isResident slot = true ↔ _
    rw [ih, isResident_upload, or_assoc, List.map_cons, List.mem_cons]

/-- what is resident is not uploaded again -/
theorem uploadAll_of_resident {us : List Upload} (h : ∀ u ∈ us, d.isResident u.slot = true) :
    d.uploadAll us = (0, d) := by
  induction us with
  | nil => rfl
  | cons u us ih =>
    rw [uploadAll, upload_of_resident (h u List.mem_cons_self),
      ih fun v hv => h v (List.mem_cons_of_mem u hv)]
    rfl

end Device

end TerrainPatches
