import TxRelay.Json.Spelling

/-!
# From text to tree

The reader takes one value from a text and gives its tree with the characters that are left, or no
characters if the reading stopped inside the value. Each call takes at least one character, so more
fuel than there are characters is never used up.

Results:
* `read_eof`: a text of blanks is cut off.
-/

namespace TxRelay.Json

/-- A part of a tree and the characters after it, if the part is whole. -/
abbrev Reading (α : Type) := α × Option (List Char)

/-- A scalar value, or what is broken in its place. -/
def readScalar (text : List Char) : Reading Tree :=
  match text with
  | [] => (.broken (.nothing .cutOff), none)
  | c :: rest =>
    if c = '"' then
      match scanString rest with
      | .closed s after => (.string s, some after)
      | .broken used skipped => (.broken (.string used skipped), none)
    else if c = '-' ∨ c.isDigit then
      match scanNumeral text with
      | .ok (numeral, after) => (.number numeral.value?, some after)
      | .error fault => (.broken (.number fault), none)
    else if c = 'n' then readWord ['u', 'l', 'l'] .null rest
    else if c = 't' then readWord ['r', 'u', 'e'] (.bool true) rest
    else if c = 'f' then readWord ['a', 'l', 's', 'e'] (.bool false) rest
    else (.broken (.nothing .malformed), none)
where
  /-- A word of which the first letter has been read. -/
  readWord (word : List Char) (tree : Tree) (rest : List Char) : Reading Tree :=
    match scanWord word rest with
    | .ok after => (tree, some after)
    | .error fault => (.broken (.word fault), none)

mutual

/-- Reads a value. -/
def readTree : Nat → List Char → Reading Tree
  | 0, _ => (.broken (.nothing .malformed), none)
  | fuel + 1, text =>
    match text.dropWhile isSpace with
    | '[' :: rest =>
      match rest.dropWhile isSpace with
      | [] => (.array (.stop .cutOff), none)
      | ']' :: after => (.array .close, some after)
      | item =>
        let (head, after) := readTree fuel item
        match after with
        | none => (.array (.more head (.stop .malformed)), none)
        | some after =>
          let (tail, after) := readElements fuel after
          (.array (.more head tail), after)
    | '\x7b' :: rest =>
      match rest.dropWhile isSpace with
      | [] => (.object (.stop .cutOff), none)
      | '\x7d' :: after => (.object .close, some after)
      | '"' :: name =>
        let (members, after) := readMember fuel name
        (.object members, after)
      | _ => (.object (.noName .malformed .malformed), none)
    | token => readScalar token

/-- Reads what follows an item of an array. -/
def readElements : Nat → List Char → Reading Elements
  | 0, _ => (.stop .malformed, none)
  | fuel + 1, text =>
    match text.dropWhile isSpace with
    | [] => (.stop .cutOff, none)
    | ']' :: after => (.close, some after)
    | ',' :: rest =>
      let (head, after) := readTree fuel rest
      match after with
      | none => (.more head (.stop .malformed), none)
      | some after =>
        let (tail, after) := readElements fuel after
        (.more head tail, after)
    | _ => (.stop .malformed, none)

/-- Reads a member of which the opening quote has been read, and what follows it. -/
def readMember : Nat → List Char → Reading Members
  | 0, _ => (.stop .malformed, none)
  | fuel + 1, text =>
    match scanString text with
    | .broken used skipped => (.noName used skipped, none)
    | .closed name after =>
      match after.dropWhile isSpace with
      | [] => (.more name (.broken (.nothing .cutOff)) (.stop .malformed), none)
      | ':' :: rest =>
        let (value, after) := readTree fuel rest
        match after with
        | none => (.more name value (.stop .malformed), none)
        | some after =>
          let (tail, after) := readMembers fuel after
          (.more name value tail, after)
      | _ => (.more name (.broken (.nothing .malformed)) (.stop .malformed), none)

/-- Reads what follows a member of an object. -/
def readMembers : Nat → List Char → Reading Members
  | 0, _ => (.stop .malformed, none)
  | fuel + 1, text =>
    match text.dropWhile isSpace with
    | [] => (.stop .cutOff, none)
    | '\x7d' :: after => (.close, some after)
    | ',' :: rest =>
      match rest.dropWhile isSpace with
      | [] => (.noName .cutOff .cutOff, none)
      | '"' :: name => readMember fuel name
      | _ => (.noName .malformed .malformed, none)
    | _ => (.stop .malformed, none)

end

/-- A text that has been read: the tree of its value, and whether only blanks follow. -/
structure Document where
  tree : Tree
  complete : Bool

/-- Reads a text. -/
def Document.read (text : List Char) : Document :=
  match readTree (text.length + 1) text with
  | (tree, some rest) => ⟨tree, rest.all isSpace⟩
  | (tree, none) => ⟨tree, false⟩

theorem read_eof (text : List Char) (h : text.all isSpace) :
    (Document.read text).tree = .broken (.nothing .cutOff) := by
  have hd : text.dropWhile isSpace = [] := by
    induction text with
    | nil => rfl
    | cons c rest ih => simp_all
  simp [Document.read, readTree, hd, readScalar]

end TxRelay.Json
