import TxRelay.Json.Error
import TxRelay.Json.Reader

/-!
# Codecs

A codec says how the values of a type are written and how they are read back. Reading walks a tree in
the order of its text and gives the first error met there. It counts the arrays and objects it may
still open, since nesting is bounded wherever a value is used; a value that is passed over may nest
without bound.

A tree read from a text and the tree of a value already at hand decode alike; only some errors differ.
-/

namespace TxRelay.Json

/-- Where a tree comes from. -/
inductive Origin where
  /-- Straight from a text. -/
  | text
  /-- From a value read before. -/
  | value
  deriving DecidableEq, Repr

/-- How many arrays and objects may be open at a time. -/
def maxDepth : Nat := 127

/-- How values of a type are read and written. -/
structure Codec (α : Type) where
  /-- Reads a tree of which so many levels may still be opened. -/
  decode : Origin → Nat → Tree → Except Error α
  /-- Writes a value. -/
  encode : α → Value

/-- The error of a tree that is not of the expected kind. -/
def Tree.mismatch (expected : String) : Tree → Error
  | .null => .invalidType .null expected
  | .bool b => .invalidType (.bool b) expected
  | .number (some n) => .invalidType (.number n) expected
  | .number none => .fault .malformed
  | .string (some s) => .invalidType (.string s) expected
  | .string none => .fault .malformed
  | .array _ => .invalidType .sequence expected
  | .object _ => .invalidType .map expected
  | .broken b => .fault b.used

/-- Opens one level. -/
def descend {α : Type} (depth : Nat) (inside : Nat → Except Error α) : Except Error α :=
  match depth with
  | 0 => .error (.fault .malformed)
  | depth + 1 => inside depth

namespace Codec

variable {α β : Type}

/-- Decodes a whole text (`from_str`): after the value only blanks may follow. -/
def read (c : Codec α) (text : String) : Except Error α :=
  let document := Document.read text.toList
  match c.decode .text maxDepth document.tree with
  | .error e => .error e
  | .ok a => if document.complete then .ok a else .error (.fault .malformed)

/-- Decodes a value already at hand (`from_value`). -/
def ofValue (c : Codec α) (v : Value) : Except Error α :=
  c.decode .value maxDepth v.tree

/-- The text of an encoded value (`to_string`). -/
def write (c : Codec α) (a : α) : String :=
  (c.encode a).text

/-! ## Scalars -/

/-- Strings. -/
def text : Codec String where
  decode _ _ tree :=
    match tree with
    | .string (some s) => .ok s
    | tree => .error (tree.mismatch "a string")
  encode := .string

/-- Booleans. -/
def flag : Codec Bool where
  decode _ _ tree :=
    match tree with
    | .bool b => .ok b
    | tree => .error (tree.mismatch "a boolean")
  encode := .bool

/-- Natural numbers below 2^64, named in errors as the caller says. -/
def natural (expected : String) : Codec Nat where
  decode _ _ tree :=
    match tree with
    | .number (some (.natural n)) =>
      if n < unsignedBound then .ok n else .error (.invalidValue (.number (.natural n)) expected)
    | .number (some (.negative n)) => .error (.invalidValue (.number (.negative n)) expected)
    | tree => .error (tree.mismatch expected)
  encode n := .number (.natural n)

/-- A codec through two inverse functions. -/
def iso (c : Codec α) (forth : α → β) (back : β → α) : Codec β where
  decode origin depth tree := (c.decode origin depth tree).map forth
  encode b := c.encode (back b)

/-- Words of 64 bits. -/
def word : Codec UInt64 :=
  (natural "u64").iso UInt64.ofNat UInt64.toNat

/-- Words of 64 bits that count things in memory. -/
def size : Codec UInt64 :=
  (natural "usize").iso UInt64.ofNat UInt64.toNat

/-- Integers of 64 bits with a sign. -/
def integer : Codec Int64 where
  decode _ _ tree :=
    match tree with
    | .number (some (.natural n)) =>
      if n < negativeBound then .ok (Int64.ofInt n)
      else .error (.invalidValue (.number (.natural n)) "i64")
    | .number (some (.negative n)) =>
      if n ≤ negativeBound then .ok (Int64.ofInt (-n))
      else .error (.invalidValue (.number (.negative n)) "i64")
    | tree => .error (tree.mismatch "i64")
  encode i :=
    match i.toInt with
    | .ofNat n => .number (.natural n)
    | .negSucc n => .number (.negative (n + 1))

/-! ## Values that may be absent, lists and maps -/

/-- A value or null. -/
def optional (c : Codec α) : Codec (Option α) where
  decode origin depth tree :=
    match tree with
    | .null => .ok none
    | tree => (c.decode origin depth tree).map some
  encode
    | none => .null
    | some a => c.encode a

/-- Decodes the items of an array. -/
def decodeItems (item : Tree → Except Error α) : Elements → Except Error (List α)
  | .close => .ok []
  | .stop f => .error (.fault f)
  | .more head rest => do
    let a ← item head
    let as ← decodeItems item rest
    return a :: as

/-- Lists, written as arrays. -/
def list (c : Codec α) : Codec (List α) where
  decode origin depth tree :=
    match tree with
    | .array items => descend depth fun depth => decodeItems (c.decode origin depth) items
    | tree => .error (tree.mismatch "a sequence")
  encode as := .array (as.map c.encode)

/-- Decodes the members of a map and adds them to those before. -/
def decodeEntries (value : Tree → Except Error α) (done : List (String × α)) :
    Members → Except Error (List (String × α))
  | .close => .ok done
  | .stop f => .error (.fault f)
  | .noName used _ => .error (.fault used)
  | .more none _ _ => .error (.fault .malformed)
  | .more (some name) tree rest => do
    let a ← value tree
    decodeEntries value (insertSorted name a done) rest

/-- Maps, sorted by name; the last of one name is kept. -/
def map (c : Codec α) : Codec (List (String × α)) where
  decode origin depth tree :=
    match tree with
    | .object members => descend depth fun depth => decodeEntries (c.decode origin depth) [] members
    | tree => .error (tree.mismatch "a map")
  encode entries := .object (entries.map fun (name, a) => (name, c.encode a))

/-! ## Choices -/

/-- The variant of a name. -/
def variant (all : List α) (name : α → String) (s : String) : Except Error α :=
  match all.find? fun a => name a = s with
  | some a => .ok a
  | none => .error (.unknownVariant s (all.map name))

/-- The value that goes with a variant is null. -/
def decodeUnit : Tree → Except Error Unit
  | .null => .ok ()
  | tree => .error (tree.mismatch "unit")

/-- The end of an object that must have one member. -/
def decodeOnly : Members → Except Error Unit
  | .close => .ok ()
  | .stop f => .error (.fault f)
  | _ => .error (.fault .malformed)

/-- A variant written as an object of one member. -/
def decodeTagged (all : List α) (name : α → String) (origin : Origin) :
    Members → Except Error α
  | .more (some s) value rest => do
    if origin = .value then
      match rest with
      | .close => pure ()
      | _ => throw (.invalidValue .map "map with a single key")
    let a ← variant all name s
    decodeUnit value
    decodeOnly rest
    return a
  | .more none _ _ => .error (.fault .malformed)
  | .noName used _ => .error (.fault used)
  | .stop f => .error (.fault f)
  | .close =>
    match origin with
    | .text => .error (.fault .malformed)
    | .value => .error (.invalidValue .map "map with a single key")

/-- Choices without content, written by name; an object of the name and null is read as well. A text
that begins with neither a quote nor a brace is malformed, whatever else it is. -/
def choice (all : List α) (name : α → String) : Codec α where
  decode origin depth tree :=
    match tree with
    | .string (some s) => variant all name s
    | .object members => descend depth fun _ => decodeTagged all name origin members
    | .string none => .error (.fault .malformed)
    | .broken (.nothing f) => .error (.fault f)
    | .broken (.string used _) => .error (.fault used)
    | tree =>
      match origin with
      | .text => .error (.fault .malformed)
      | .value => .error (tree.mismatch "string or map")
  encode a := .string (name a)

end Codec

/-! ## Free values -/

mutual

/-- The free value of a tree. -/
def Tree.free (depth : Nat) : Tree → Except Error Value
  | .null => .ok .null
  | .bool b => .ok (.bool b)
  | .number (some n) => .ok (.number n)
  | .number none => .error (.fault .malformed)
  | .string (some s) => .ok (.string s)
  | .string none => .error (.fault .malformed)
  | .array items =>
    match depth with
    | 0 => .error (.fault .malformed)
    | depth + 1 => (items.free depth).map .array
  | .object members =>
    match depth with
    | 0 => .error (.fault .malformed)
    | depth + 1 => (members.free depth []).map .object
  | .broken b => .error (.fault b.used)

/-- The free values of items. -/
def Elements.free (depth : Nat) : Elements → Except Error (List Value)
  | .close => .ok []
  | .stop f => .error (.fault f)
  | .more head rest => do
    let v ← head.free depth
    let vs ← rest.free depth
    return v :: vs

/-- The free values of members, added to sorted ones. -/
def Members.free (depth : Nat) :
    Members → List (String × Value) → Except Error (List (String × Value))
  | .close, done => .ok done
  | .stop f, _ => .error (.fault f)
  | .noName used _, _ => .error (.fault used)
  | .more none _ _, _ => .error (.fault .malformed)
  | .more (some name) tree rest, done => do
    let v ← tree.free depth
    rest.free depth (insertSorted name v done)

end

/-- Free values, members sorted by name and the last of one name kept. -/
def Codec.free : Codec Value where
  decode _ depth tree := tree.free depth
  encode v := v

end TxRelay.Json
