import TxRelay.Json.Tree
import TxRelay.Text.Hex
import TxRelay.Text.Utf8

/-!
# Words, numbers and strings of a text

Each scanner takes the characters from the beginning of one token on and gives the token with the
characters after it, or what is broken. A string is scanned into pieces, its characters and the 16-bit
units of its `\u` escapes, before surrogate pairs are joined: a half that stands alone is a fault of
the string only when it is used.

Results:
* `joinPieces_chars`: pieces that are characters are that text.
-/

namespace TxRelay.Json

open TxRelay.Text (Hex.value? Utf8.encode)

/-- The blanks between tokens. -/
def isSpace (c : Char) : Bool :=
  c = ' ' || c = '\n' || c = '\t' || c = '\r'

/-- Scans the rest of a word. -/
def scanWord : List Char → List Char → Except Fault (List Char)
  | [], rest => .ok rest
  | _ :: _, [] => .error .cutOff
  | c :: word, d :: rest => if c = d then scanWord word rest else .error .malformed

/-! ## Numbers -/

/-- Scans a run of digits. -/
def scanDigits (text : List Char) : List Char × List Char :=
  (text.takeWhile Char.isDigit, text.dropWhile Char.isDigit)

/-- The fault of a place where a digit must stand. -/
def digitMissing : List Char → Fault
  | [] => .cutOff
  | _ :: _ => .malformed

/-- Scans an exponent, if there is one. -/
def scanExponent : List Char → Except Fault (Option Exponent × List Char)
  | c :: rest =>
    if c = 'e' ∨ c = 'E' then
      let (negative, rest) :=
        match rest with
        | '+' :: r => (false, r)
        | '-' :: r => (true, r)
        | r => (false, r)
      match scanDigits rest with
      | ([], after) => .error (digitMissing after)
      | (digits, after) => .ok (some ⟨negative, digits⟩, after)
    else .ok (none, c :: rest)
  | [] => .ok (none, [])

/-- Scans a point and the digits after it, if there is one. -/
def scanFraction : List Char → Except Fault (List Char × List Char)
  | '.' :: rest =>
    match scanDigits rest with
    | ([], after) => .error (digitMissing after)
    | (digits, after) => .ok (digits, after)
  | rest => .ok ([], rest)

/-- Scans the digits before a point: a zero stands alone. -/
def scanWhole : List Char → Except Fault (List Char × List Char)
  | [] => .error .cutOff
  | c :: rest =>
    if c = '0' then
      match rest with
      | d :: _ => if d.isDigit then .error .malformed else .ok (['0'], rest)
      | [] => .ok (['0'], [])
    else if c.isDigit then .ok (scanDigits (c :: rest))
    else .error .malformed

/-- Scans a number after its sign. -/
def scanUnsigned (negative : Bool) (text : List Char) : Except Fault (Numeral × List Char) := do
  let (whole, rest) ← scanWhole text
  let (fraction, rest) ← scanFraction rest
  let (exponent, rest) ← scanExponent rest
  return (⟨negative, whole, fraction, exponent⟩, rest)

/-- Scans a number. -/
def scanNumeral : List Char → Except Fault (Numeral × List Char)
  | '-' :: rest => scanUnsigned true rest
  | text => scanUnsigned false text

/-! ## Strings -/

/-- A piece of a string. -/
inductive Piece where
  | char (c : Char)
  /-- A 16-bit unit given by its number. -/
  | unit (n : Nat)
  deriving DecidableEq, Repr

/-- How a string ends. -/
inductive StringEnd where
  | closed (rest : List Char)
  | fault (f : Fault)
  deriving DecidableEq, Repr

/-- The character that a letter after a backslash stands for. -/
def unescape? (c : Char) : Option Char :=
  if c = '"' ∨ c = '\\' ∨ c = '/' then some c
  else if c = 'b' then some '\x08'
  else if c = 'f' then some '\x0c'
  else if c = 'n' then some '\n'
  else if c = 'r' then some '\r'
  else if c = 't' then some '\t'
  else none

/-- The unit that four digits number. -/
def unit? (a b c d : Char) : Option Nat := do
  let a ← Hex.value? a.toNat
  let b ← Hex.value? b.toNat
  let c ← Hex.value? c.toNat
  let d ← Hex.value? d.toNat
  return ((16 * a + b) * 16 + c) * 16 + d

/-- The fault of an escape without four digits: the text is cut off if fewer than four bytes are
left of it. -/
def unitMissing (rest : List Char) : Fault :=
  if (Utf8.encode (rest.take 4)).length < 4 then .cutOff else .malformed

/-- Scans a string after its opening quote. -/
def scanPieces : List Char → List Piece × StringEnd
  | [] => ([], .fault .cutOff)
  | '"' :: rest => ([], .closed rest)
  | ['\\'] => ([], .fault .cutOff)
  | '\\' :: 'u' :: a :: b :: c :: d :: rest =>
    match unit? a b c d with
    | some n =>
      let (pieces, ending) := scanPieces rest
      (.unit n :: pieces, ending)
    | none => ([], .fault .malformed)
  | '\\' :: 'u' :: rest => ([], .fault (unitMissing rest))
  | '\\' :: e :: rest =>
    match unescape? e with
    | some c =>
      let (pieces, ending) := scanPieces rest
      (.char c :: pieces, ending)
    | none => ([], .fault .malformed)
  | c :: rest =>
    if c.toNat < 0x20 then ([], .fault .malformed)
    else
      let (pieces, ending) := scanPieces rest
      (.char c :: pieces, ending)

/-- A unit that begins a surrogate pair. -/
def isLeading (n : Nat) : Bool := 0xd800 ≤ n && n ≤ 0xdbff

/-- A unit that ends a surrogate pair. -/
def isTrailing (n : Nat) : Bool := 0xdc00 ≤ n && n ≤ 0xdfff

/-- The character of a surrogate pair. -/
def pairChar (leading trailing : Nat) : Char :=
  Char.ofNat (0x10000 + (leading - 0xd800) * 0x400 + (trailing - 0xdc00))

/-- Joins pieces to a text, unless half of a surrogate pair stands alone. -/
def joinPieces : List Piece → Option (List Char)
  | [] => some []
  | .char c :: rest => (joinPieces rest).map (c :: ·)
  | .unit n :: .unit m :: rest =>
    if isLeading n then
      if isTrailing m then (joinPieces rest).map (pairChar n m :: ·) else none
    else if isTrailing n then none
    else (joinPieces (.unit m :: rest)).map (Char.ofNat n :: ·)
  | .unit n :: rest =>
    if isLeading n || isTrailing n then none
    else (joinPieces rest).map (Char.ofNat n :: ·)

/-- Pieces without a last one that may still become half of a pair. -/
def dropLeading (pieces : List Piece) : List Piece :=
  match pieces.getLast? with
  | some (.unit n) => if isLeading n then pieces.dropLast else pieces
  | _ => pieces

/-- The fault of using a string that breaks off after some pieces: a half pair among them comes
first. -/
def usedFault (pieces : List Piece) (fault : Fault) : Fault :=
  if (joinPieces (dropLeading pieces)).isSome then fault else .malformed

/-- A string that is scanned to its end, or the faults of one that is not. -/
inductive ScannedString where
  /-- The string, or none if it holds half of a surrogate pair. -/
  | closed (s : Option String) (rest : List Char)
  | broken (used skipped : Fault)
  deriving DecidableEq, Repr

/-- Scans a string after its opening quote. -/
def scanString (text : List Char) : ScannedString :=
  match scanPieces text with
  | (pieces, .closed rest) => .closed ((joinPieces pieces).map String.ofList) rest
  | (pieces, .fault f) => .broken (usedFault pieces f) f

theorem joinPieces_chars (text : List Char) : joinPieces (text.map .char) = some text := by
  induction text with
  | nil => rfl
  | cons c rest ih => simp [joinPieces, ih]

end TxRelay.Json
