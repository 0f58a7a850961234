import TxRelay.Text.Hex
import TxRelay.Text.Utf8

/-!
# Quantities and byte strings

Events write quantities and byte strings in hexadecimal after the mark `0x`. A quantity has at least
one digit and any number of leading zeros; one of 64 bits becomes a number, one of 256 bits has at
most 64 digits and becomes canonical text: lower case, no leading zeros. A byte string has two digits
a byte.

Results:
* `wide?_length`: a canonical quantity has at most 64 digits after its mark.
-/

namespace TxRelay.Quantity

open TxRelay.Text

/-- The mark before hexadecimal digits. -/
def mark (digits : List Char) : List Char :=
  '0' :: 'x' :: digits

/-- The digits after the mark. -/
def unmark? : List Char → Option (List Char)
  | '0' :: 'x' :: digits => some digits
  | _ => none

/-- The digits of a quantity: there is one, and all are hexadecimal. -/
def digits? (text : List Char) : Option (List Char) := do
  let digits ← unmark? text
  if digits.isEmpty || !digits.all Hex.isDigit then none else some digits

/-- The exclusive bound of quantities of 64 bits. -/
def wordBound : Nat := Nat.pow 2 64

/-- A number as a word, unless it is too large. -/
def fit? (n : Nat) : Option UInt64 :=
  if n < wordBound then some (UInt64.ofNat n) else none

/-- A quantity of 64 bits, as `quantity` reads it. -/
def word? (text : List Char) : Option UInt64 := do
  fit? (Hex.number (← digits? text))

/-- A quantity of 64 bits in decimal digits, without mark. -/
def decimal? (text : List Char) : Option UInt64 :=
  if text.isEmpty || !text.all Char.isDigit then none else fit? (Nat.ofDigitChars 10 text 0)

/-- A chain is numbered in hexadecimal after the mark, in decimal without it (`chain_id`). -/
def chain? (text : List Char) : Option UInt64 :=
  if (unmark? text).isSome then word? text else decimal? text

/-- Digits without leading zeros in lower case; a zero keeps one digit. -/
def canonical (digits : List Char) : List Char :=
  match digits.dropWhile (· = '0') with
  | [] => ['0']
  | significant => significant.map Char.toLower

/-- The greatest number of digits of a quantity of 256 bits. -/
def wideDigits : Nat := 64

/-- The canonical text of a quantity of 256 bits. `u256` counts the digits before it drops the leading
zeros. -/
def wide? (text : List Char) : Option (List Char) := do
  let digits ← digits? text
  if wideDigits < digits.length then none else some (mark (canonical digits))

/-- The canonical text of a byte string of a given length (`fixed_bytes`). -/
def fixed? (length : Nat) (text : List Char) : Option (List Char) := do
  let digits ← unmark? text
  match Hex.decode (Utf8.encode digits) with
  | .ok bytes => if bytes.length = length then some (mark (Hex.encode bytes)) else none
  | .error _ => none

/-- The canonical text of a byte string of any length, as `data` reads it; its mark may be missing. -/
def bytes (text : List Char) : Except Hex.Fault (List Char) :=
  (Hex.decode (Utf8.encode ((unmark? text).getD text))).map fun bytes => mark (Hex.encode bytes)

@[simp] theorem unmark?_mark (digits : List Char) : unmark? (mark digits) = some digits := rfl

theorem length_canonical_le {digits : List Char} (h : digits ≠ []) :
    (canonical digits).length ≤ digits.length := by
  rw [canonical]
  have hd : (digits.dropWhile (· = '0')).length ≤ digits.length :=
    (List.dropWhile_sublist _).length_le
  split
  · cases digits with
    | nil => exact absurd rfl h
    | cons c rest => simp
  · simpa using hd

theorem wide?_length {text result : List Char} (h : wide? text = some result) :
    ∃ digits, result = mark digits ∧ digits.length ≤ wideDigits := by
  simp only [wide?, Option.bind_eq_bind, Option.bind_eq_some_iff] at h
  obtain ⟨digits, hd, h⟩ := h
  split at h
  · cases h
  · have hne : digits ≠ [] := by
      intro he
      simp only [digits?, Option.bind_eq_bind, Option.bind_eq_some_iff] at hd
      obtain ⟨ds, _, hd⟩ := hd
      split at hd <;> simp_all
    exact ⟨canonical digits, (Option.some.inj h).symm,
      Nat.le_trans (length_canonical_le hne) (by omega)⟩

end TxRelay.Quantity
