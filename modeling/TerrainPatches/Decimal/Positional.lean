import TerrainPatches.Decimal.Shortest
import TerrainPatches.FloatParts

/-!
# The text of a single precision number

The shortest decimal that reads back, written out by position: never an exponent, a point only
before digits that are not whole, a leading minus for whatever carries the sign, zero included.
What is not finite has the texts `inf`, `-inf` and `NaN`.

The span of a number reaches half way to its neighbours.  In units of `2 ^ -149` a neighbour is
`2 ^ shift` away, but only half as far below a power of two, so the denominator `2 ^ 151` makes
all ends whole.
-/

namespace TerrainPatches

namespace Decimal

def text (d : Decimal) : String :=
  let digits := toString d.digits
  if 0 ≤ d.exponent then digits ++ String.ofList (List.replicate d.exponent.toNat '0')
  else
    let places := (-d.exponent).toNat
    let padded := List.replicate (places + 1 - digits.length) '0' ++ digits.toList
    let whole := padded.length - places
    String.ofList (padded.take whole) ++ "." ++ String.ofList (padded.drop whole)

end Decimal

namespace FloatParts

/-- the reals that round to the magnitude -/
def span (f : FloatParts) : Span :=
  let ulp := 4 * Nat.pow 2 f.shift
  let value := f.mantissa * ulp
  let down := if f.fraction = 0 ∧ 1 < f.exponent then ulp / 4 else ulp / 2
  ⟨value, value - down, value + ulp / 2, Nat.pow 2 151, f.mantissa % 2 == 0⟩

/-- the text of a finite magnitude: zero has no leading digit to search for, and no other span lies
between two multiples of `10 ^ -60` -/
def finiteText (f : FloatParts) : String :=
  if f.mantissa = 0 then "0"
  else match f.span.coarsest 39 100 with
    | some d => d.text
    | none => "0"

def text (f : FloatParts) : String :=
  if f.isNaN then "NaN"
  else (if f.negative then "-" else "") ++ (if f.isFinite then f.finiteText else "inf")

end FloatParts

def floatText (a : Float32) : String := (FloatParts.ofFloat a).text

end TerrainPatches
