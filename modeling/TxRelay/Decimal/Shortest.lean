import TxRelay.Decimal.Binary64

/-!
# Shortest decimals

The shortest decimal of a number is found on the coarsest grid of powers of ten that has a point
among the reals rounding to that number; the point taken is the nearest, an even one for a tie.
Those reals reach half way to the neighbours above and below, the ends included when the mantissa is
even.
-/

namespace TxRelay.Decimal

/-- A positive decimal: `coefficient * 10 ^ (power - 324)`. -/
structure Shortest where
  coefficient : Nat
  power : Nat
  deriving DecidableEq, Repr

namespace Shortest

/-- Grids are numbered from that of 10^-324, the finest one needed. -/
def finest : Nat := 324

/-- The point of a grid that is nearest to a magnitude and among the reals that round to it, if the
grid has one. All quantities are in quarters of the unit of magnitudes, times `10 ^ finest`. -/
def onGrid? (x : Binary64) (power : Nat) : Option Nat :=
  let ten := Nat.pow 10 finest
  let value := 4 * x.units * ten
  let up := 2 * Nat.pow 2 x.scale * ten
  let down := if x.mantissa = Nat.pow 2 52 ∧ 0 < x.scale then up / 2 else up
  let step := 4 * Nat.pow 2 Binary64.unitExponent * Nat.pow 10 power
  let below := value / step
  let above := below + 1
  let even := x.mantissa % 2 = 0
  let belowGap := value - below * step
  let aboveGap := above * step - value
  let belowFits := 0 < below ∧ (belowGap < down ∨ belowGap = down ∧ even)
  let aboveFits := aboveGap < up ∨ aboveGap = up ∧ even
  if belowFits ∧ aboveFits then
    some (if belowGap < aboveGap ∨ belowGap = aboveGap ∧ below % 2 = 0 then below else above)
  else if belowFits then some below
  else if aboveFits then some above
  else none

/-- Searches the grids from `power` down to the finest. -/
def search (x : Binary64) : Nat → Shortest
  | 0 => ⟨(onGrid? x 0).getD 1, 0⟩
  | power + 1 =>
    match onGrid? x (power + 1) with
    | some point => ⟨point, power + 1⟩
    | none => search x power

/-- The shortest decimal of a magnitude other than zero. The coarsest grid searched is 10^309, above
every number of the format. -/
def ofBinary64 (x : Binary64) : Shortest :=
  search x 633

end Shortest

/-- The digits of the shortest decimal of a magnitude, without trailing zeros, and the power of ten
of the first digit; a zero has the one digit zero. -/
def shortestDigits (x : Binary64) : List Char × Int :=
  if x.mantissa = 0 then (['0'], 0)
  else
    let s := Shortest.ofBinary64 x
    let digits := Nat.toDigits 10 s.coefficient
    let shown := (digits.reverse.dropWhile (· = '0')).reverse
    (shown, (digits.length : Int) - 1 + s.power - Shortest.finest)

end TxRelay.Decimal
