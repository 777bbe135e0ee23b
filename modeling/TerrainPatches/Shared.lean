/-!
# Shared objects: identity, supply and holders

Some objects are used by several patches at once: index lists, textures, passes, composites.  A
`Shared α` is such an object, its contents together with its identity.  Two uses are of the same
object exactly if the identities are equal; objects with equal contents may still be different.

Identities come from a `Supply`, which never gives one twice: everything made later has a greater
one.  `Holders` are the uses from outside, under names; one name holds one object.
-/

namespace TerrainPatches

/-- the identity of an object, and the place on the device that belongs to it -/
abbrev ObjectId := Nat

structure Shared (α : Type) where
  id : ObjectId
  val : α

/-! ## supply -/

/-- the identities below `next` have been given -/
structure Supply where
  next : ObjectId

namespace Supply

def initial : Supply := ⟨0⟩

def fresh (s : Supply) : ObjectId × Supply := (s.next, ⟨s.next + 1⟩)

def share {α : Type} (s : Supply) (a : α) : Shared α × Supply := (⟨s.next, a⟩, ⟨s.next + 1⟩)

end Supply

/-! ## entries -/

/-- what is looked up is among the entries -/
theorem mem_of_lookup {κ α : Type} [BEq κ] [LawfulBEq κ] {k : κ} {a : α} {es : List (κ × α)}
    (h : es.lookup k = some a) : (k, a) ∈ es := by
  obtain ⟨before, after, he, -⟩ := List.lookup_eq_some_iff.mp h
  rw [he]
  exact List.mem_append_right _ List.mem_cons_self

/-! ## holders -/

/-- what is held from outside, under names -/
structure Holders (α : Type) where
  held : List (String × Shared α)

namespace Holders

variable {α : Type}

def nobody : Holders α := ⟨[]⟩

def get? (h : Holders α) (name : String) : Option (Shared α) := h.held.lookup name

/-- `name` lets go of what it holds -/
def drop (h : Holders α) (name : String) : Holders α := ⟨h.held.filter fun e => e.1 != name⟩

/-- `name` holds `object`, and no longer what it held before -/
def hold (h : Holders α) (name : String) (object : Shared α) : Holders α :=
  ⟨(name, object) :: (h.drop name).held⟩

/-- how many names hold the object -/
def count (h : Holders α) (id : ObjectId) : Nat := h.held.countP fun e => e.2.id == id

end Holders

end TerrainPatches
