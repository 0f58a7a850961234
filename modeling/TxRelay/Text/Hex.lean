import TxRelay.Text.Quoted

/-!
# Hexadecimal text

A hexadecimal digit is `0` to `9` or a letter `a` to `f` of either case; what is written uses lower
case. Byte strings are read two digits a byte from the bytes of the text, so that a fault names the
first byte that is no digit.

Results:
* `value?_digit`: a digit that is written has its value.
* `length_encode`: two digits a byte.
-/

namespace TxRelay.Text.Hex

/-- The value of a digit, given its code. -/
def value? (code : Nat) : Option Nat :=
  if 0x30 ≤ code && code ≤ 0x39 then some (code - 0x30)
  else if 0x61 ≤ code && code ≤ 0x66 then some (code - 0x61 + 10)
  else if 0x41 ≤ code && code ≤ 0x46 then some (code - 0x41 + 10)
  else none

/-- Whether a character is a digit. -/
def isDigit (c : Char) : Bool :=
  (value? c.toNat).isSome

/-- The digit of a value below 16. -/
def digit (n : Nat) : Char :=
  if n < 10 then Char.ofNat (0x30 + n) else Char.ofNat (0x61 + n - 10)

/-- The number that digits denote; a character that is no digit counts as zero. -/
def number (digits : List Char) : Nat :=
  digits.foldl (fun n c => 16 * n + (value? c.toNat).getD 0) 0

/-- Why a text is no byte string. -/
inductive Fault where
  /-- The digits do not come in pairs. -/
  | oddLength
  /-- The byte at `index` is no digit. -/
  | notDigit (byte : UInt8) (index : Nat)
  deriving DecidableEq, Repr

/-- The text of a fault, the offending byte shown as the character of its number. -/
def Fault.message : Fault → String
  | .oddLength => "Odd number of digits"
  | .notDigit byte index =>
    s!"Invalid character {quotedChar (Char.ofNat byte.toNat)} at position {index}"

/-- The value of one byte of the text at `index`. -/
def digitAt (byte : UInt8) (index : Nat) : Except Fault Nat :=
  match value? byte.toNat with
  | some n => .ok n
  | none => .error (.notDigit byte index)

/-- Reads pairs of digits, the first of them at `index`. -/
def decodePairs (index : Nat) : List UInt8 → Except Fault (List UInt8)
  | [] => .ok []
  | [_] => .error .oddLength
  | high :: low :: rest => do
    let h ← digitAt high index
    let l ← digitAt low (index + 1)
    let bytes ← decodePairs (index + 2) rest
    return UInt8.ofNat (16 * h + l) :: bytes

/-- Reads a byte string (`decode`). The number of digits is checked before the digits are. -/
def decode (text : List UInt8) : Except Fault (List UInt8) :=
  if text.length % 2 = 1 then .error .oddLength else decodePairs 0 text

/-- Writes a byte string (`encode`), two lower-case digits a byte. -/
def encode (bytes : List UInt8) : List Char :=
  bytes.flatMap fun b => [digit (b.toNat / 16), digit (b.toNat % 16)]

theorem value?_digit {n : Nat} (h : n < 16) : value? (digit n).toNat = some n := by
  have : ∀ m : Fin 16, value? (digit m.val).toNat = some m.val := by decide
  exact this ⟨n, h⟩

theorem length_encode (bytes : List UInt8) : (encode bytes).length = 2 * bytes.length := by
  induction bytes with
  | nil => rfl
  | cons b rest ih => simp only [encode, List.flatMap_cons, List.length_append] at ih ⊢; simp [ih]; omega

end TxRelay.Text.Hex
