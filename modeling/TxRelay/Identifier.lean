import TxRelay.Text.Hex

/-!
# Identifiers

An identifier is a UUID of version 7: 48 bits of the time in milliseconds, four bits of version, 12
random bits, two bits of variant and 62 random bits, written as 32 lower-case digits in groups of 8,
4, 4, 4 and 12.

Results:
* `isValid_make`: every identifier that is made is valid.
-/

namespace TxRelay.Identifier

open TxRelay.Text

/-- The last `count` digits of a number. -/
def digits (count n : Nat) : List Char :=
  (List.range count).reverse.map fun place => Hex.digit (n / Nat.pow 16 place % 16)

/-- Sets the groups of 32 digits apart. -/
def group (ds : List Char) : List Char :=
  ds.take 8 ++ '-' :: (ds.drop 8).take 4 ++ '-' :: (ds.drop 12).take 4 ++
    '-' :: (ds.drop 16).take 4 ++ '-' :: ds.drop 20

/-- The identifier of a time in milliseconds and of random bits (`generate`). -/
def make (time random : Nat) : String :=
  String.ofList <| group <|
    digits 12 time ++ '7' :: digits 3 (random / Nat.pow 2 62) ++
      Hex.digit (8 + random / Nat.pow 2 60 % 4) :: digits 15 random

/-- The places of the hyphens. -/
def hyphens : List Nat := [8, 13, 18, 23]

/-- Whether a character may stand at a place of an identifier. -/
def allowed (place : Nat) (c : Char) : Bool :=
  if hyphens.contains place then c = '-'
  else if place = 14 then c = '7'
  else if place = 19 then ['8', '9', 'a', 'b'].contains c
  else Hex.isDigit c && !c.isUpper

/-- Whether a text is an identifier. -/
def isValid (text : String) : Bool :=
  text.toList.length = 36 && (text.toList.zipIdx.all fun (c, place) => allowed place c)

/-- A digit of a number may stand wherever any digit may. -/
theorem lower_digit (n : Nat) :
    (Hex.isDigit (Hex.digit (n % 16)) && !(Hex.digit (n % 16)).isUpper) = true := by
  have every : ∀ d < 16, (Hex.isDigit (Hex.digit d) && !(Hex.digit d).isUpper) = true := by decide
  exact every _ (Nat.mod_lt _ (by decide))

theorem variant_digit (n : Nat) : ['8', '9', 'a', 'b'].contains (Hex.digit (8 + n % 4)) = true := by
  have every : ∀ d < 4, ['8', '9', 'a', 'b'].contains (Hex.digit (8 + d)) = true := by decide
  exact every _ (Nat.mod_lt _ (by decide))

/-- Whatever the time and the random bits are, what is made of them is an identifier. -/
theorem isValid_make (time random : Nat) : isValid (make time random) = true := by
  simp only [isValid, make, String.toList_ofList, group, digits]
  simpa [hyphens, allowed, lower_digit, List.range, List.range.loop] using variant_digit _

end TxRelay.Identifier
