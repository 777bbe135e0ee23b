import TerrainPatches.Shared

/-!
# The device: what is resident on it

Contents are uploaded to the device and released from it explicitly.  Each piece of contents has
a slot, its object's identity; the device keeps the handle that belongs to a slot while its
contents are resident.  Handles are 1, 2, 3, … in the order of creation and are never used again.

An upload of what is resident does nothing and a release of what is not does nothing; both say
whether they did something.  The device counts handles created, textures and bytes, and keeps the
list of handles deleted.  Forgetting an object on the way does not touch the device.
-/

namespace TerrainPatches

/-- what there is to upload for a slot -/
structure Upload where
  slot : ObjectId
  bytes : Nat
  isTexture : Bool

structure Device where
  /-- the slots with resident contents, and their handles -/
  resident : List (ObjectId × Nat)
  /-- the handles `1 … created` have been created -/
  created : Nat
  /-- the handles deleted, last one first -/
  deleted : List Nat
  bytes : Nat
  textures : Nat

namespace Device

def initial : Device := ⟨[], 0, [], 0, 0⟩

def handle? (d : Device) (slot : ObjectId) : Option Nat := d.resident.lookup slot

def isResident (d : Device) (slot : ObjectId) : Bool := (d.handle? slot).isSome

/-- created and not deleted -/
def live (d : Device) : Nat := d.created - d.deleted.length

def wasDeleted (d : Device) (handle : Nat) : Bool := d.deleted.contains handle

/-! ## one slot -/

def create (d : Device) (u : Upload) : Device where
  resident := (u.slot, d.created + 1) :: d.resident
  created := d.created + 1
  deleted := d.deleted
  bytes := d.bytes + u.bytes
  textures := if u.isTexture then d.textures + 1 else d.textures

/-- makes the contents of a slot resident; whether a handle was created for that -/
def upload (d : Device) (u : Upload) : Bool × Device :=
  if d.isResident u.slot then (false, d) else (true, d.create u)

/-- deletes the handle of a slot; whether there was one -/
def release (d : Device) (slot : ObjectId) : Bool × Device :=
  match d.handle? slot with
  | none => (false, d)
  | some h => (true, { d with
      resident := d.resident.filter fun e => e.1 != slot
      deleted := h :: d.deleted })

theorem upload_of_resident {d : Device} {u : Upload} (h : d.isResident u.slot = true) :
    d.upload u = (false, d) := if_pos h

theorem upload_of_not_resident {d : Device} {u : Upload} (h : d.isResident u.slot = false) :
    d.upload u = (true, d.create u) := if_neg (by simp [h])

/-! ## many slots -/

/-- uploads in order; how many handles were created -/
def uploadAll (d : Device) : List Upload → Nat × Device
  | [] => (0, d)
  | u :: us =>
    let one := d.upload u
    let rest := one.2.uploadAll us
    (one.1.toNat + rest.1, rest.2)

/-- releases in order; how many handles were deleted -/
def releaseAll (d : Device) : List ObjectId → Nat × Device
  | [] => (0, d)
  | slot :: slots =>
    let one := d.release slot
    let rest := one.2.releaseAll slots
    (one.1.toNat + rest.1, rest.2)

theorem uploadAll_append (d : Device) (a b : List Upload) :
    d.uploadAll (a ++ b) =
      ((d.uploadAll a).1 + ((d.uploadAll a).2.uploadAll b).1,
        ((d.uploadAll a).2.uploadAll b).2) := by
  induction a generalizing d with
  | nil => simp [uploadAll]
  | cons u us ih => simp only [List.cons_append, uploadAll, ih, Nat.add_assoc]

theorem releaseAll_append (d : Device) (a b : List ObjectId) :
    d.releaseAll (a ++ b) =
      ((d.releaseAll a).1 + ((d.releaseAll a).2.releaseAll b).1,
        ((d.releaseAll a).2.releaseAll b).2) := by
  induction a generalizing d with
  | nil => simp [releaseAll]
  | cons s ss ih => simp only [List.cons_append, releaseAll, ih, Nat.add_assoc]

end Device

end TerrainPatches
