import TxRelay.Json.Number

/-!
# Values and their text

A value is what a JSON text denotes. Its text is compact: no blanks, members in the order in which
the value holds them, and inside a string a backslash only before a quote, a backslash or a control
below U+0020. A free value holds its members sorted by name, one member a name.

Results:
* `text_string`: a string is its escaped characters between quotes.
-/

namespace TxRelay.Json

/-- A JSON value. -/
inductive Value where
  | null
  | bool (b : Bool)
  | number (n : Number)
  | string (s : String)
  | array (items : List Value)
  | object (members : List (String × Value))
  deriving Repr

/-- A digit of the four that number a control character. -/
def controlDigit (n : Nat) : Char :=
  Nat.digitChar n

/-- The form of one character inside a string. -/
def escape (c : Char) : List Char :=
  if c = '"' then ['\\', '"']
  else if c = '\\' then ['\\', '\\']
  else if c = '\x08' then ['\\', 'b']
  else if c = '\x0c' then ['\\', 'f']
  else if c = '\n' then ['\\', 'n']
  else if c = '\r' then ['\\', 'r']
  else if c = '\t' then ['\\', 't']
  else if c.toNat < 0x20 then
    ['\\', 'u', '0', '0', controlDigit (c.toNat / 16), controlDigit (c.toNat % 16)]
  else [c]

/-- The text of a string. -/
def stringChars (s : String) : List Char :=
  '"' :: (s.toList.flatMap escape ++ ['"'])

mutual

/-- The text of a value. -/
def Value.chars : Value → List Char
  | .null => ['n', 'u', 'l', 'l']
  | .bool true => ['t', 'r', 'u', 'e']
  | .bool false => ['f', 'a', 'l', 's', 'e']
  | .number n => n.chars
  | .string s => stringChars s
  | .array items => '[' :: (itemsChars items ++ [']'])
  | .object members => '\x7b' :: (membersChars members ++ ['\x7d'])

/-- The text of items, a comma between two. -/
def itemsChars : List Value → List Char
  | [] => []
  | [v] => v.chars
  | v :: w :: rest => v.chars ++ ',' :: itemsChars (w :: rest)

/-- The text of members, a comma between two. -/
def membersChars : List (String × Value) → List Char
  | [] => []
  | [(name, v)] => stringChars name ++ ':' :: v.chars
  | (name, v) :: m :: rest => stringChars name ++ ':' :: v.chars ++ ',' :: membersChars (m :: rest)

end

/-- The text of a value. -/
def Value.text (v : Value) : String :=
  String.ofList v.chars

/-- Puts a member at its place among sorted ones, in place of one of the same name. -/
def insertSorted {α : Type} (name : String) (v : α) : List (String × α) → List (String × α)
  | [] => [(name, v)]
  | (n, w) :: rest =>
    if name < n then (name, v) :: (n, w) :: rest
    else if name = n then (name, v) :: rest
    else (n, w) :: insertSorted name v rest

mutual

/-- The value with all members sorted by name, the last of one name kept. -/
def Value.sorted : Value → Value
  | .null => .null
  | .bool b => .bool b
  | .number n => .number n
  | .string s => .string s
  | .array items => .array (sortedItems items)
  | .object members => .object (sortedMembers members [])

/-- Items of which each is sorted. -/
def sortedItems : List Value → List Value
  | [] => []
  | v :: rest => v.sorted :: sortedItems rest

/-- Adds members to sorted ones. -/
def sortedMembers : List (String × Value) → List (String × Value) → List (String × Value)
  | [], done => done
  | (name, v) :: rest, done => sortedMembers rest (insertSorted name v.sorted done)

end

theorem text_string (s : String) :
    (Value.string s).chars = '"' :: (s.toList.flatMap escape ++ ['"']) := by
  rw [Value.chars, stringChars]

end TxRelay.Json
