import TxRelay.Decimal.Shortest

/-!
# Layout of decimals

How digits and a power of ten become text: positional over a range of powers, scientific outside it.
A positional text always has a point; a scientific one has a point only between digits.
-/

namespace TxRelay.Decimal

/-- The choices a written form of numbers leaves open. -/
structure Layout where
  /-- The least power of the first digit that is written positionally. -/
  least : Int
  /-- The greatest power of the first digit that is written positionally. -/
  greatest : Int
  /-- The mark before an exponent. -/
  mark : Char
  /-- Whether an exponent that is not negative has a sign. -/
  plus : Bool
  deriving DecidableEq, Repr

/-- Digits with a point after the first, unless it is the only one. -/
def scientificDigits : List Char → List Char
  | [] => []
  | [d] => [d]
  | d :: rest => d :: '.' :: rest

/-- Digits at their places, the first at a power that is not negative. -/
def positional (digits : List Char) (power : Nat) : List Char :=
  let whole := digits.take (power + 1)
  let fraction := digits.drop (power + 1)
  whole ++ List.replicate (power + 1 - digits.length) '0' ++
    '.' :: (if fraction.isEmpty then ['0'] else fraction)

/-- The text of an exponent. -/
def Layout.exponent (layout : Layout) (power : Int) : List Char :=
  layout.mark ::
    ((if power < 0 then ['-'] else if layout.plus then ['+'] else []) ++
      Nat.toDigits 10 power.natAbs)

/-- The text of digits of which the first stands at a power of ten. -/
def Layout.text (layout : Layout) (digits : List Char) (power : Int) : List Char :=
  if power < layout.least ∨ layout.greatest < power then
    scientificDigits digits ++ layout.exponent power
  else if power < 0 then
    '0' :: '.' :: List.replicate (power.natAbs - 1) '0' ++ digits
  else positional digits power.toNat

/-- The text of a number: its sign and its shortest decimal. -/
def Layout.number (layout : Layout) (x : Binary64) : List Char :=
  let (digits, power) := shortestDigits x
  (if x.negative then ['-'] else []) ++ layout.text digits power

end TxRelay.Decimal
