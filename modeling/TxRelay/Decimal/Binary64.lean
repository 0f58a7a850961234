/-!
# Binary floating point of 64 bits

A finite number is a sign, a mantissa below 2^53 and a scale: its magnitude is
`mantissa * 2 ^ scale` units of 2^-1074, the least magnitude there is. Arithmetic is exact arithmetic
on natural numbers followed by one rounding to the nearest number, an even mantissa for a tie.
-/

namespace TxRelay.Decimal

/-- A finite number of the format. -/
structure Binary64 where
  negative : Bool
  mantissa : Nat
  scale : Nat
  deriving DecidableEq, Repr

namespace Binary64

/-- Bits of a mantissa. -/
def precision : Nat := 53

/-- The greatest scale: above it a magnitude is out of range. -/
def maxScale : Nat := 2045

/-- The unit of magnitudes is 2 to the minus this. -/
def unitExponent : Nat := 1074

/-- The quotient of two natural numbers rounded to the nearest, to an even one for a tie. -/
def divNearest (num den : Nat) : Nat :=
  let q := num / den
  let twice := 2 * (num % den)
  if twice < den then q
  else if twice = den then (if q % 2 = 0 then q else q + 1)
  else q + 1

/-- The magnitude nearest to `num / den`, unless it is out of range. -/
def ofRatio (num den : Nat) : Option Binary64 :=
  let units := num * Nat.pow 2 unitExponent
  let scale := (units / den).log2 - (precision - 1)
  let mantissa := divNearest units (den * Nat.pow 2 scale)
  let (mantissa, scale) :=
    if mantissa = Nat.pow 2 precision then (Nat.pow 2 (precision - 1), scale + 1)
    else (mantissa, scale)
  if maxScale < scale then none else some ⟨false, mantissa, scale⟩

/-- The number of units of a magnitude. -/
def units (x : Binary64) : Nat :=
  x.mantissa * Nat.pow 2 x.scale

/-- The number with the given sign and the same magnitude. -/
def withSign (negative : Bool) (x : Binary64) : Binary64 :=
  { x with negative }

/-- The zero of positive sign. -/
def zero : Binary64 := ⟨false, 0, 0⟩

/-- The magnitude nearest to a natural number. -/
def ofNat? (n : Nat) : Option Binary64 :=
  ofRatio n 1

/-- The product of two magnitudes. -/
def mul? (x y : Binary64) : Option Binary64 :=
  ofRatio (x.units * y.units) (Nat.pow 2 (2 * unitExponent))

/-- The quotient of two magnitudes, the second not zero. -/
def div? (x y : Binary64) : Option Binary64 :=
  ofRatio x.units y.units

end Binary64

end TxRelay.Decimal
