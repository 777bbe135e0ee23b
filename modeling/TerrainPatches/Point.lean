import TerrainPatches.Scalar

/-!
# Points of the plane and of space

Points add, subtract and multiply coordinate by coordinate; `scale` and `over` multiply and
divide every coordinate by one number.  Each operation rounds each coordinate once, in the order
in which it is written.
-/

namespace TerrainPatches

structure Point2 (α : Type) where
  x : α
  y : α
deriving DecidableEq

structure Point3 (α : Type) where
  x : α
  y : α
  z : α
deriving DecidableEq

/-! ## the plane -/

namespace Point2

variable {α : Type}

/-- all coordinates `a` -/
def fill (a : α) : Point2 α := ⟨a, a⟩

instance [Add α] : Add (Point2 α) := ⟨fun p q => ⟨p.x + q.x, p.y + q.y⟩⟩
instance [Sub α] : Sub (Point2 α) := ⟨fun p q => ⟨p.x - q.x, p.y - q.y⟩⟩
instance [Mul α] : Mul (Point2 α) := ⟨fun p q => ⟨p.x * q.x, p.y * q.y⟩⟩

def scale [Mul α] (p : Point2 α) (a : α) : Point2 α := ⟨p.x * a, p.y * a⟩
def dividedBy [Div α] (p : Point2 α) (a : α) : Point2 α := ⟨p.x / a, p.y / a⟩

/-- the opposite point, by multiplication with minus one -/
def opposite [Scalar α] (p : Point2 α) : Point2 α := p.scale (-Scalar.one)

/-- whether all coordinates are equal as numbers: both zeros are, what is undefined never is -/
def sameNumbers [BEq α] (p q : Point2 α) : Bool := p.x == q.x && p.y == q.y

/-- the point above `p` at height `z` -/
def lift (p : Point2 α) (z : α) : Point3 α := ⟨p.x, p.y, z⟩

@[simp] theorem dividedBy_x [Div α] (p : Point2 α) (a : α) : (p.dividedBy a).x = p.x / a := rfl
@[simp] theorem dividedBy_y [Div α] (p : Point2 α) (a : α) : (p.dividedBy a).y = p.y / a := rfl

end Point2

/-! ## space -/

namespace Point3

variable {α : Type}

/-- all coordinates `a` -/
def fill (a : α) : Point3 α := ⟨a, a, a⟩

instance [Add α] : Add (Point3 α) := ⟨fun p q => ⟨p.x + q.x, p.y + q.y, p.z + q.z⟩⟩
instance [Sub α] : Sub (Point3 α) := ⟨fun p q => ⟨p.x - q.x, p.y - q.y, p.z - q.z⟩⟩
instance [Mul α] : Mul (Point3 α) := ⟨fun p q => ⟨p.x * q.x, p.y * q.y, p.z * q.z⟩⟩

def scale [Mul α] (p : Point3 α) (a : α) : Point3 α := ⟨p.x * a, p.y * a, p.z * a⟩
def dividedBy [Div α] (p : Point3 α) (a : α) : Point3 α := ⟨p.x / a, p.y / a, p.z / a⟩

/-- the opposite point, by multiplication with minus one -/
def opposite [Scalar α] (p : Point3 α) : Point3 α := p.scale (-Scalar.one)

/-- whether all coordinates are equal as numbers -/
def sameNumbers [BEq α] (p q : Point3 α) : Bool := p.x == q.x && p.y == q.y && p.z == q.z

def dot [Add α] [Mul α] (p q : Point3 α) : α := p.x * q.x + p.y * q.y + p.z * q.z

def cross [Sub α] [Mul α] (p q : Point3 α) : Point3 α :=
  ⟨p.y * q.z - p.z * q.y, p.z * q.x - p.x * q.z, p.x * q.y - p.y * q.x⟩

end Point3

end TerrainPatches
