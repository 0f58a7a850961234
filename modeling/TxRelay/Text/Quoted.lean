import TxRelay.Text.Hidden

/-!
# Quoted text

How a text is shown inside a message: between quotes, with a backslash before a backslash and before
the quote, with `\t`, `\r`, `\n` and `\0` for those controls, and with the number of any other hidden
character in braces.

Results:
* `escapes_of_visible`: a character that is visible and no delimiter is shown as itself.
-/

namespace TxRelay.Text

/-- The form of one character between quotes of the given kind. -/
def escapes (quote c : Char) : List Char :=
  if c = '\x00' then ['\\', '0']
  else if c = '\t' then ['\\', 't']
  else if c = '\r' then ['\\', 'r']
  else if c = '\n' then ['\\', 'n']
  else if c = '\\' then ['\\', '\\']
  else if c = quote then ['\\', quote]
  else if isHidden c then
    ['\\', 'u', '\x7b'] ++ Nat.toDigits 16 c.toNat ++ ['\x7d']
  else [c]

/-- A text between double quotes. -/
def quoted (text : String) : String :=
  String.ofList ('"' :: text.toList.flatMap (escapes '"') ++ ['"'])

/-- A character between single quotes. -/
def quotedChar (c : Char) : String :=
  String.ofList ('\'' :: escapes '\'' c ++ ['\''])

theorem escapes_of_visible {quote c : Char} (h : isHidden c = false) (hq : c ≠ quote)
    (hb : c ≠ '\\') : escapes quote c = [c] := by
  have hc : ¬c.toNat < 0x20 := fun hlt => by simp [isHidden_of_lt_space c hlt] at h
  have ne (d : Char) (hd : d.toNat < 0x20) : c ≠ d := fun he => hc (he ▸ hd)
  rw [escapes, if_neg (ne _ (by decide)), if_neg (ne _ (by decide)), if_neg (ne _ (by decide)),
    if_neg (ne _ (by decide)), if_neg hb, if_neg hq, if_neg (by simp [h])]

end TxRelay.Text
