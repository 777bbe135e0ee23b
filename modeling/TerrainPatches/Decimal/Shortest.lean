/-!
# The shortest decimal that reads back

A stored number stands for all reals that round to it.  Among the decimals in that span the text
of the number is one with the fewest digits, and of those the nearest to the number itself; of
two equally near ones the larger.

A decimal with few digits is a multiple of a high power of ten, so the search goes from coarse
grids to fine ones: the first power `10 ^ p` with a positive multiple in the span wins.  On one
grid only the two neighbours of the number can be nearest (`Span.onGrid`).

All is whole-number arithmetic: a span holds the numerators of its value and of its two ends over
one denominator.
-/

namespace TerrainPatches

/-- the decimal `digits * 10 ^ exponent` -/
structure Decimal where
  digits : Nat
  exponent : Int
deriving DecidableEq

/-- the reals from `lo / unit` to `hi / unit`, around `value / unit` -/
structure Span where
  value : Nat
  lo : Nat
  hi : Nat
  unit : Nat
  /-- whether the two ends belong to it -/
  closed : Bool

namespace Decimal

/-- numerator of `10 ^ p` -/
def powNum (p : Int) : Nat := Nat.pow 10 p.toNat
/-- denominator of `10 ^ p` -/
def powDen (p : Int) : Nat := Nat.pow 10 (-p).toNat

end Decimal

namespace Span

/-- `c * 10 ^ p` lies in the span -/
def has (s : Span) (d : Decimal) : Bool :=
  let mark := d.digits * Decimal.powNum d.exponent * s.unit
  let lo := s.lo * Decimal.powDen d.exponent
  let hi := s.hi * Decimal.powDen d.exponent
  if s.closed then lo ≤ mark && mark ≤ hi else lo < mark && mark < hi

/-- the multiple of `10 ^ p` at or below the value -/
def below (s : Span) (p : Int) : Nat :=
  s.value * Decimal.powDen p / (Decimal.powNum p * s.unit)

/-- whether the multiple `c` of `10 ^ p` at or below the value is strictly nearer than the next -/
def nearerBelow (s : Span) (p : Int) (c : Nat) : Bool :=
  let step := Decimal.powNum p * s.unit
  let v := s.value * Decimal.powDen p
  v - c * step < (c + 1) * step - v

/-- the nearest positive multiple of `10 ^ p` in the span -/
def onGrid (s : Span) (p : Int) : Option Decimal :=
  let c := s.below p
  let low : Decimal := ⟨c, p⟩
  let high : Decimal := ⟨c + 1, p⟩
  let lowFits := 0 < c && s.has low
  if lowFits && (s.nearerBelow p c || !s.has high) then some low
  else if s.has high then some high
  else none

/-- the first of `k` grids, from `10 ^ p` downward, with a point in the span -/
def coarsest (s : Span) (p : Int) : Nat → Option Decimal
  | 0 => none
  | k + 1 => match s.onGrid p with
    | some d => some d
    | none => s.coarsest (p - 1) k

end Span

end TerrainPatches
