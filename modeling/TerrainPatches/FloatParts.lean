import TerrainPatches.Scalar

/-!
# A single precision number, taken apart

The bit pattern is a sign, eight bits of exponent and twenty-three of fraction.  A finite number
is `mantissa * 2 ^ shift` in units of `2 ^ -149`; the greatest exponent marks what is not finite.

`log2Up` is the binary logarithm rounded up to a whole number, computed from the parts without
any rounding of its own: the number of times one must be doubled to reach the argument.
-/

namespace TerrainPatches

structure FloatParts where
  negative : Bool
  exponent : Nat
  fraction : Nat

namespace FloatParts

/-- the implied leading one of a mantissa: `2 ^ 23` -/
def leadingOne : Nat := 8388608

def ofBits (bits : UInt32) : FloatParts :=
  let b := bits.toNat
  ⟨decide (256 * leadingOne ≤ b), b / leadingOne % 256, b % leadingOne⟩

def ofFloat (a : Float32) : FloatParts := ofBits a.toBits

def isFinite (f : FloatParts) : Bool := f.exponent != 255

def isNaN (f : FloatParts) : Bool := f.exponent == 255 && f.fraction != 0

/-- the leading one is implied unless the exponent is the least -/
def mantissa (f : FloatParts) : Nat :=
  if f.exponent = 0 then f.fraction else leadingOne + f.fraction

def shift (f : FloatParts) : Nat := f.exponent - 1

/-- the least exponent of a power of two that is not below the magnitude, in units of `2 ^ -149` -/
def binaryCeiling (f : FloatParts) : Nat := Nat.log2 (2 * f.mantissa - 1) + f.shift

end FloatParts

/-- the binary logarithm, rounded up to a whole number; zero goes to negative infinity, what is
negative to nothing, what is not finite to itself -/
def log2Up (a : Float32) : Float32 :=
  let f := FloatParts.ofFloat a
  if !f.isFinite then a
  else if f.mantissa = 0 then -(Scalar.one / Scalar.zero)
  else if f.negative then Scalar.zero / Scalar.zero
  else if 149 ≤ f.binaryCeiling then Scalar.ofNat (f.binaryCeiling - 149)
  else -(Scalar.ofNat (149 - f.binaryCeiling))

end TerrainPatches
