import TerrainPatches.Shared

/-!
# A cache that forgets what nothing uses

Shared objects are kept under keys, in the order of the keys.  An entry is in use while its
object has a reference besides its own: from outside, or from another entry.  `evict` goes
through the entries in order.  One in use is marked as used now and stays; another one stays if
its last use is at most `expiry` ago, and goes otherwise.  Time that would run backward stands
still.

Looking an object up does not mark it as used; holding on to it until the next `evict` does.

`lowerBound` finds the entry with the greatest key at or below a key: with keys that are
neighbours of their relatives, it finds a relative where there is no exact match.
-/

namespace TerrainPatches

structure CacheEntry (κ ν : Type) where
  key : κ
  object : Shared ν
  lastUsed : Nat

structure ExpiringCache (κ ν : Type) where
  /-- in the order of their keys, each key once -/
  entries : List (CacheEntry κ ν)
  /-- how long an entry may go unused -/
  expiry : Nat

namespace ExpiringCache

variable {κ ν : Type}

def empty (expiry : Nat) : ExpiringCache κ ν := ⟨[], expiry⟩

def size (c : ExpiringCache κ ν) : Nat := c.entries.length

def isEmpty (c : ExpiringCache κ ν) : Bool := c.entries.isEmpty

def toList (c : ExpiringCache κ ν) : List (κ × Shared ν) :=
  c.entries.map fun e => (e.key, e.object)

def objects (c : ExpiringCache κ ν) : List (Shared ν) := c.entries.map (·.object)

def clear (c : ExpiringCache κ ν) : ExpiringCache κ ν := { c with entries := [] }

/-! ## looking up -/

section
variable [Ord κ]

def find? (c : ExpiringCache κ ν) (k : κ) : Option (CacheEntry κ ν) :=
  c.entries.find? fun e => compare e.key k == .eq

def get? (c : ExpiringCache κ ν) (k : κ) : Option (Shared ν) := (c.find? k).map (·.object)

def contains (c : ExpiringCache κ ν) (k : κ) : Bool := (c.find? k).isSome

/-- the entry with the greatest key that is not above `k` -/
def lowerBound (c : ExpiringCache κ ν) (k : κ) : Option (CacheEntry κ ν) :=
  (c.entries.filter fun e => (compare e.key k).isLE).getLast?

/-! ## changing entries -/

/-- puts an entry among entries in order, in the place of one with its key -/
def place (e : CacheEntry κ ν) : List (CacheEntry κ ν) → List (CacheEntry κ ν)
  | [] => [e]
  | f :: fs => match compare e.key f.key with
    | .lt => e :: f :: fs
    | .eq => e :: fs
    | .gt => f :: place e fs

/-- keeps `object` under `k`, used at `now`; what was there before is `get? k` -/
def insert (c : ExpiringCache κ ν) (k : κ) (object : Shared ν) (now : Nat) : ExpiringCache κ ν :=
  { c with entries := place ⟨k, object, now⟩ c.entries }

def remove (c : ExpiringCache κ ν) (k : κ) : ExpiringCache κ ν :=
  { c with entries := c.entries.filter fun e => compare e.key k != .eq }

end

/-! ## eviction -/

/-- the entries that refer to an object -/
def references (entries : List (CacheEntry κ ν)) (id : ObjectId) : Nat :=
  entries.countP fun e => e.object.id == id

/-- goes through the entries that are left, after those already kept; `outside` counts the
references to an object from elsewhere -/
def sweep (expiry : Nat) (outside : ObjectId → Nat) (now : Nat) :
    (kept left : List (CacheEntry κ ν)) → List (CacheEntry κ ν)
  | kept, [] => kept
  | kept, e :: es =>
    if 1 < outside e.object.id + references (kept ++ e :: es) e.object.id then
      sweep expiry outside now (kept ++ [{ e with lastUsed := now }]) es
    else if now - e.lastUsed ≤ expiry then sweep expiry outside now (kept ++ [e]) es
    else sweep expiry outside now kept es

/-- marks what is in use and forgets what has expired; how many entries went -/
def evict (c : ExpiringCache κ ν) (outside : ObjectId → Nat) (now : Nat) :
    Nat × ExpiringCache κ ν :=
  let left := sweep c.expiry outside now [] c.entries
  (c.entries.length - left.length, { c with entries := left })

/-! ## small facts -/

end ExpiringCache

end TerrainPatches
