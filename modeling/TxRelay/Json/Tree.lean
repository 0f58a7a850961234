import TxRelay.Json.Value

/-!
# Trees of a text

A text is read as a tree even when it is no JSON: where the reading stops, the tree holds what is
broken there, and nothing follows. Whoever walks the tree in the order of the text therefore meets the
faults of the text in that order, among the faults of its own.

Some faults depend on the use. A number out of range and half of a surrogate pair are faults only of a
number or a string that is used, and a number or a string that is cut off is another fault when it is
passed over.

Results:
* `skip_tree`: the tree of a value can be passed over.
-/

namespace TxRelay.Json

/-- A fault of a text. -/
inductive Fault where
  /-- The text ends too early. -/
  | cutOff
  /-- Any other fault. -/
  | malformed
  deriving DecidableEq, Repr

/-- What stands where a value should. -/
inductive Breakage where
  /-- No value begins here. -/
  | nothing (fault : Fault)
  /-- One of the words `null`, `true` and `false`, misspelled or cut off. -/
  | word (fault : Fault)
  /-- A number that is misspelled or cut off. -/
  | number (fault : Fault)
  /-- A string that does not end: the fault when it is used and when it is passed over. -/
  | string (used skipped : Fault)
  deriving DecidableEq, Repr

/-- The fault of a broken value that is used. -/
def Breakage.used : Breakage → Fault
  | .nothing fault | .word fault | .number fault | .string fault _ => fault

/-- The fault of a broken value that is passed over. -/
def Breakage.skipped : Breakage → Fault
  | .nothing fault | .word fault | .string _ fault => fault
  | .number _ => .malformed

mutual

/-- A value as it is read from a text. -/
inductive Tree where
  | null
  | bool (b : Bool)
  /-- A number, or none if it is out of range. -/
  | number (n : Option Number)
  /-- A string, or none if it holds half of a surrogate pair. -/
  | string (s : Option String)
  | array (items : Elements)
  | object (members : Members)
  | broken (b : Breakage)

/-- What follows in an array. -/
inductive Elements where
  | close
  /-- Neither an end nor a comma where one must stand. -/
  | stop (fault : Fault)
  | more (head : Tree) (rest : Elements)

/-- What follows in an object. -/
inductive Members where
  | close
  /-- Neither an end nor a comma where one must stand. -/
  | stop (fault : Fault)
  /-- No name where one must stand, or a name that does not end. -/
  | noName (used skipped : Fault)
  /-- A member; its name is none if it holds half of a surrogate pair. -/
  | more (name : Option String) (value : Tree) (rest : Members)

end

mutual

/-- The first fault of a value that is passed over. -/
def Tree.skip : Tree → Except Fault Unit
  | .null | .bool _ | .number _ | .string _ => .ok ()
  | .array items => items.skip
  | .object members => members.skip
  | .broken b => .error b.skipped

/-- The first fault of items that are passed over. -/
def Elements.skip : Elements → Except Fault Unit
  | .close => .ok ()
  | .stop fault => .error fault
  | .more head rest =>
    match head.skip with
    | .ok () => rest.skip
    | .error fault => .error fault

/-- The first fault of members that are passed over. -/
def Members.skip : Members → Except Fault Unit
  | .close => .ok ()
  | .stop fault => .error fault
  | .noName _ skipped => .error skipped
  | .more _ value rest =>
    match value.skip with
    | .ok () => rest.skip
    | .error fault => .error fault

end

mutual

/-- The tree of a value. -/
def Value.tree : Value → Tree
  | .null => .null
  | .bool b => .bool b
  | .number n => .number (some n)
  | .string s => .string (some s)
  | .array items => .array (itemsTree items)
  | .object members => .object (membersTree members)

/-- The elements of items. -/
def itemsTree : List Value → Elements
  | [] => .close
  | v :: rest => .more v.tree (itemsTree rest)

/-- The members of an object. -/
def membersTree : List (String × Value) → Members
  | [] => .close
  | (name, v) :: rest => .more (some name) v.tree (membersTree rest)

end

mutual

theorem skip_tree : ∀ v : Value, v.tree.skip = .ok ()
  | .null | .bool _ | .number _ | .string _ => by simp [Value.tree, Tree.skip]
  | .array items => by simp [Value.tree, Tree.skip, skip_itemsTree items]
  | .object members => by simp [Value.tree, Tree.skip, skip_membersTree members]

theorem skip_itemsTree : ∀ items : List Value, (itemsTree items).skip = .ok ()
  | [] => by simp [itemsTree, Elements.skip]
  | v :: rest => by simp [itemsTree, Elements.skip, skip_tree v, skip_itemsTree rest]

theorem skip_membersTree : ∀ members : List (String × Value), (membersTree members).skip = .ok ()
  | [] => by simp [membersTree, Members.skip]
  | (name, v) :: rest => by simp [membersTree, Members.skip, skip_tree v, skip_membersTree rest]

end

end TxRelay.Json
