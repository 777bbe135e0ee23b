/-!
# Scalars: the numbers that geometry is computed with

`Scalar α` is what the geometry of a patch needs of its numbers: the four operations, the two
orders, whole numbers in (`ofNat`) and out (`toNat`, toward zero, nothing below zero).  Sizes,
centers and texture coordinates are written once over it and used at two instances:

* `Float32`   single precision, rounding after each operation; this is what runs;
* `Rat`       exact; this is what the geometry means.

Every constant is a small whole number or a quotient of two, so both instances read the same
formula.  `twoPow` doubles step by step: exact at `Rat`, and at `Float32` exact up to `2 ^ 127`
and infinite from there on.
-/

namespace TerrainPatches

class Scalar (α : Type) extends Add α, Sub α, Mul α, Div α, Neg α, LT α, LE α where
  /-- the whole number `n` -/
  ofNat : Nat → α
  /-- the whole part, toward zero; `0` for what is not positive or not a number -/
  toNat : α → Nat
  /-- neither infinite nor undefined -/
  finite : α → Bool
  decLt : ∀ a b : α, Decidable (a < b)
  decLe : ∀ a b : α, Decidable (a ≤ b)

instance Scalar.decidableLt {α : Type} [Scalar α] (a b : α) : Decidable (a < b) :=
  Scalar.decLt a b
instance Scalar.decidableLe {α : Type} [Scalar α] (a b : α) : Decidable (a ≤ b) :=
  Scalar.decLe a b

/-! ## the two instances -/

/-- single precision; `toNat` stays below `2 ^ 32`, as far as a 32-bit count reaches -/
instance : Scalar Float32 where
  ofNat n := n.toUInt64.toFloat32
  toNat a := a.toUInt32.toNat
  finite a := a.isFinite
  decLt _ _ := inferInstance
  decLe _ _ := inferInstance

/-- exact rational numbers -/
instance : Scalar Rat where
  ofNat n := n
  toNat a := a.floor.toNat
  finite _ := true
  decLt _ _ := inferInstance
  decLe _ _ := inferInstance

namespace Scalar

variable {α : Type} [Scalar α]

def zero : α := ofNat 0
def one : α := ofNat 1
def two : α := ofNat 2
def four : α := ofNat 4
def half : α := one / two

/-! ## powers of two -/

/-- `2 ^ k`, by doubling -/
def twoPow : Nat → α
  | 0 => one
  | k + 1 => two * twoPow k

/-- the least whole number that is not below `a`, for an `a` that is no larger than a count -/
def ceilNat (a : α) : Nat := if ofNat (toNat a) < a then toNat a + 1 else toNat a

end Scalar

end TerrainPatches
