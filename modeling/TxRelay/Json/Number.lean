import TxRelay.Decimal.Layout

/-!
# Numbers

A numeral is a number as it is spelled. One without point and exponent is an integer if it fits the
64-bit ranges, and minus zero or a larger one is a real number. Of a real number's digits only the
leading ones that fit in 64 bits are kept, and the others count as powers of ten; then the kept
digits, rounded, are multiplied or divided by the rounded power of ten.

Results:
* `keep_append`: the digits kept and the digits dropped are the digits.
* `value?_natural`: a plain numeral that keeps all its digits is that natural number.
-/

namespace TxRelay.Json

open TxRelay.Decimal (Binary64 Layout)

/-- The exclusive bound of unsigned integers. -/
def unsignedBound : Nat := Nat.pow 2 64

/-- The greatest magnitude of a negative integer. -/
def negativeBound : Nat := Nat.pow 2 63

/-- A number that a text denotes. -/
inductive Number where
  | natural (n : Nat)
  /-- The integer `-n`, where `n` is positive. -/
  | negative (n : Nat)
  | real (x : Binary64)
  deriving DecidableEq, Repr

/-- Numbers are written positionally from 10^-5 up to 10^16, and an exponent has its sign. -/
def numberLayout : Layout := ⟨-5, 15, 'e', true⟩

/-- The text of a number. -/
def Number.chars : Number → List Char
  | .natural n => Nat.toDigits 10 n
  | .negative n => '-' :: Nat.toDigits 10 n
  | .real x => numberLayout.number x

/-- The exponent of a numeral. -/
structure Exponent where
  negative : Bool
  digits : List Char
  deriving DecidableEq, Repr

/-- A number as it is spelled. -/
structure Numeral where
  negative : Bool
  whole : List Char
  fraction : List Char
  exponent : Option Exponent
  deriving DecidableEq, Repr

/-- The value of a decimal digit. -/
def digitValue (c : Char) : Nat :=
  c.toNat - '0'.toNat

/-- Extends a significand by digits while it fits in 64 bits; the digits that do not fit are the
second part. -/
def keep (significand : Nat) : List Char → Nat × List Char
  | [] => (significand, [])
  | c :: rest =>
    let next := 10 * significand + digitValue c
    if next < unsignedBound then keep next rest else (significand, c :: rest)

/-- The power of ten that an exponent stands for. -/
def Exponent.power (e : Exponent) : Int :=
  let n : Int := Nat.ofDigitChars 10 e.digits 0
  if e.negative then -n else n

/-- The greatest power of ten within the range of the format. -/
def tablePower : Nat := 308

/-- The rounded power of ten. -/
def powerOfTen? (n : Nat) : Option Binary64 :=
  Binary64.ofNat? (Nat.pow 10 n)

/-- A significand times a power of ten, rounded at each step; a power below the range is applied in
two divisions, after which nothing is left. -/
def scale? (significand : Nat) (power : Int) : Option Binary64 := do
  let x ← Binary64.ofNat? significand
  if significand = 0 then return Binary64.zero
  else if tablePower < power then none
  else if 0 ≤ power then x.mul? (← powerOfTen? power.toNat)
  else if -tablePower ≤ power then x.div? (← powerOfTen? power.natAbs)
  else if -(2 * tablePower) ≤ power then
    let y ← x.div? (← powerOfTen? tablePower)
    y.div? (← powerOfTen? (power.natAbs - tablePower))
  else return Binary64.zero

/-- The real number that a numeral denotes, unless it is out of range. -/
def Numeral.real? (s : Numeral) : Option Number := do
  let (whole, dropped) := keep 0 s.whole
  let (significand, unread) := keep whole s.fraction
  let shift : Int := dropped.length - (s.fraction.length - unread.length : Nat)
  let power := shift + (s.exponent.map Exponent.power).getD 0
  return .real ((← scale? significand power).withSign s.negative)

/-- The integer that a numeral denotes, if it has no point or exponent and fits. -/
def Numeral.integer? (s : Numeral) : Option Number :=
  if s.fraction.isEmpty && s.exponent.isNone then
    match keep 0 s.whole with
    | (n, []) =>
      if !s.negative then some (.natural n)
      else if 0 < n && n ≤ negativeBound then some (.negative n)
      else none
    | _ => none
  else none

/-- The number that a numeral denotes, unless it is out of range. -/
def Numeral.value? (s : Numeral) : Option Number :=
  match s.integer? with
  | some n => some n
  | none => s.real?

theorem keep_append (significand : Nat) (digits : List Char) :
    ∃ kept, kept ++ (keep significand digits).2 = digits ∧
      (keep significand digits).1 = Nat.ofDigitChars 10 kept significand := by
  induction digits generalizing significand with
  | nil => exact ⟨[], rfl, rfl⟩
  | cons c rest ih =>
    rw [keep]
    split
    · obtain ⟨kept, happ, hval⟩ := ih (10 * significand + digitValue c)
      exact ⟨c :: kept, by simp [happ], by rw [Nat.ofDigitChars_cons]; exact hval⟩
    · exact ⟨[], rfl, rfl⟩

theorem value?_natural {digits : List Char} {n : Nat} (h : keep 0 digits = (n, [])) :
    Numeral.value? ⟨false, digits, [], none⟩ = some (.natural n) := by
  simp [Numeral.value?, Numeral.integer?, h]

end TxRelay.Json
