import TerrainPatches.Composite
import TerrainPatches.Settings

/-!
# The bakery: which composites wait for their bake, and which are baked

Composites are put together anywhere but baked only at one point of a frame.  Two queues wait for
it.  An urgent composite is about to be drawn: all of these are baked in the next frame.  The
others are baked while the frame's time budget lasts; there is room for `capacity` of them.  A
composite may wait more than once; it is baked once.  A positive budget is taken to last for all
that wait, and without one nothing in the second queue is touched.

A bake uploads what it draws and marks the composite as baked until it is released.
-/

namespace TerrainPatches

/-- the refusal of one more composite that is not urgent -/
inductive QueueError where
  | full (capacity : Nat)
deriving DecidableEq

def QueueError.message : QueueError → String
  | .full capacity =>
    "pending composite map queue is full (" ++ toString capacity ++ " maps)"

structure BakeQueue where
  urgent : List (Shared Composite)
  pending : List (Shared Composite)
  capacity : Nat
  budget : Nat

namespace BakeQueue

def ofSettings (s : BakeSettings) : Except SettingError BakeQueue :=
  match s.check with
  | .error e => .error e
  | .ok () => .ok ⟨[], [], s.capacity, s.budget⟩

def addUrgent (q : BakeQueue) (c : Shared Composite) : BakeQueue :=
  { q with urgent := q.urgent ++ [c] }

def addPending (q : BakeQueue) (c : Shared Composite) : Except QueueError BakeQueue :=
  if q.pending.length < q.capacity then .ok { q with pending := q.pending ++ [c] }
  else .error (.full q.capacity)

def add (q : BakeQueue) (c : Shared Composite) (urgent : Bool) : Except QueueError BakeQueue :=
  if urgent then .ok (q.addUrgent c) else q.addPending c

end BakeQueue

/-- what one frame did -/
structure FrameStats where
  urgent : Nat
  pending : Nat
  /-- taken from a queue, but baked already -/
  skipped : Nat
deriving DecidableEq

structure Bakery where
  queue : BakeQueue
  /-- the composites that are baked -/
  baked : List ObjectId
  device : Device
  /-- how many bakes there have been -/
  bakes : Nat
  /-- how many things have been drawn in them -/
  drawn : Nat

namespace Bakery

def ofQueue (q : BakeQueue) : Bakery := ⟨q, [], .initial, 0, 0⟩

def isBaked (b : Bakery) (c : Shared Composite) : Bool := b.baked.contains c.id

def markBaked (b : Bakery) (c : Shared Composite) : Bakery := { b with baked := c.id :: b.baked }

def markUnbaked (b : Bakery) (ids : List ObjectId) : Bakery :=
  { b with baked := b.baked.filter fun id => !ids.contains id }

/-! ## the device -/

def uploadAll (b : Bakery) (us : List Upload) : Nat × Bakery :=
  ((b.device.uploadAll us).1, { b with device := (b.device.uploadAll us).2 })

def releaseAll (b : Bakery) (slots : List ObjectId) : Nat × Bakery :=
  ((b.device.releaseAll slots).1, { b with device := (b.device.releaseAll slots).2 })

/-- releases all that belongs to a composite; it has to be baked again before it is drawn -/
def release (b : Bakery) (c : Shared Composite) : Nat × Bakery :=
  ((b.releaseAll c.val.slots).1, (b.releaseAll c.val.slots).2.markUnbaked [c.id])

/-! ## queues -/

/-- puts a composite into a queue -/
def add (b : Bakery) (c : Shared Composite) (urgent : Bool) : Except QueueError Bakery :=
  match b.queue.add c urgent with
  | .error e => .error e
  | .ok queue => .ok { b with queue }

/-- puts a composite into the second queue if there is room, and does nothing otherwise -/
def offer (b : Bakery) (c : Shared Composite) : Bakery :=
  match b.add c false with
  | .error _ => b
  | .ok b => b

/-- bakes a composite that is not baked yet; whether it did -/
def bake (b : Bakery) (c : Shared Composite) : Bool × Bakery :=
  if b.isBaked c then (false, b)
  else (true, { (b.uploadAll c.val.uploads).2.markBaked c with
    bakes := b.bakes + 1
    drawn := b.drawn + c.val.draws.length })

/-- bakes in order; how many bakes there were and how many were skipped -/
def bakeAll (b : Bakery) : List (Shared Composite) → (Nat × Nat) × Bakery
  | [] => ((0, 0), b)
  | c :: cs =>
    let one := b.bake c
    let rest := one.2.bakeAll cs
    ((rest.1.1 + one.1.toNat, rest.1.2 + (!one.1).toNat), rest.2)

/-- bakes all that is urgent, and with a budget all that is pending -/
def renderFrame (b : Bakery) : FrameStats × Bakery :=
  let urgent := { b with queue := { b.queue with urgent := [] } }.bakeAll b.queue.urgent
  if 0 < b.queue.budget then
    let after := urgent.2
    let pending :=
      { after with queue := { after.queue with pending := [] } }.bakeAll b.queue.pending
    (⟨urgent.1.1, pending.1.1, urgent.1.2 + pending.1.2⟩, pending.2)
  else (⟨urgent.1.1, 0, urgent.1.2⟩, urgent.2)

def setBudget (b : Bakery) (budget : Nat) : Bakery :=
  { b with queue := { b.queue with budget } }

theorem bakeAll_nil (b : Bakery) : b.bakeAll [] = ((0, 0), b) := rfl

end Bakery

end TerrainPatches
