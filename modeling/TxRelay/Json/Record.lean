import TxRelay.Json.Codec

/-!
# Records

A record is declared once, field by field. The declaration gives its object form, in which members
come in any order and unknown ones are passed over, its positional form, an array of the fields in
the order of declaration, and its written form, the object in that order.

A field that is absent is reported when the object ends, the first in the order of declaration; a
field that comes twice as soon as its name comes again.
-/

namespace TxRelay.Json

/-- What the absence of a field means. -/
inductive Presence (α : Type) where
  /-- The field must be there. -/
  | required
  /-- An object may leave the field out, an array may not. -/
  | mayOmit (missing : α)
  /-- An object and the end of an array may leave the field out. -/
  | defaulted (missing : α)

/-- The value of a field that an object leaves out. -/
def Presence.inObject {α : Type} : Presence α → Option α
  | .required => none
  | .mayOmit a | .defaulted a => some a

/-- The value of a field that the end of an array leaves out. -/
def Presence.inArray {α : Type} : Presence α → Option α
  | .required | .mayOmit _ => none
  | .defaulted a => some a

/-- A field of a record. -/
structure Field (α : Type) where
  name : String
  codec : Codec α
  presence : Presence α
  /-- Whether a value is left out of the written form. -/
  hidden : α → Bool

/-- A field that must be there. -/
def Field.required {α : Type} (name : String) (codec : Codec α) : Field α :=
  ⟨name, codec, .required, fun _ => false⟩

/-- A field that has a value of its own where it is left out. -/
def Field.defaulted {α : Type} (name : String) (codec : Codec α) (missing : α) : Field α :=
  ⟨name, codec, .defaulted missing, fun _ => false⟩

/-- A field that an object may leave out and that is written as null. -/
def Field.nullable {α : Type} (name : String) (codec : Codec α) : Field (Option α) :=
  ⟨name, codec.optional, .mayOmit none, fun _ => false⟩

/-- A field that may be left out of both forms and that is written as null. -/
def Field.absent {α : Type} (name : String) (codec : Codec α) : Field (Option α) :=
  ⟨name, codec.optional, .defaulted none, fun _ => false⟩

/-- The same field, left out of the written form for some values. -/
def Field.hide {α : Type} (f : Field α) (hidden : α → Bool) : Field α :=
  { f with hidden }

/-- The fields of a record in the order of declaration. The first index is the type of all of them,
the second that of the fields found so far while an object is read. -/
inductive Fields : Type → Type → Type 1 where
  | nil : Fields Unit Unit
  | cons {α β σ : Type} (f : Field α) (rest : Fields β σ) : Fields (α × β) (Option α × σ)

namespace Fields

/-- The number of fields. -/
def size {β σ : Type} : Fields β σ → Nat
  | nil => 0
  | cons _ rest => rest.size + 1

/-- Nothing found yet. -/
def noSlots : {β σ : Type} → Fields β σ → σ
  | _, _, nil => ()
  | _, _, cons _ rest => (none, rest.noSlots)

/-- Takes a member: a field is decoded unless it came before, any other member is passed over. -/
def store (origin : Origin) (depth : Nat) (name : String) (tree : Tree) :
    {β σ : Type} → Fields β σ → σ → Except Error σ
  | _, _, nil, slots =>
    match tree.skip with
    | .ok () => .ok slots
    | .error f => .error (.fault f)
  | _, _, cons f rest, (slot, slots) =>
    if name = f.name then
      match slot with
      | some _ => .error (.duplicateField f.name)
      | none => (f.codec.decode origin depth tree).map fun a => (some a, slots)
    else (store origin depth name tree rest slots).map fun slots => (slot, slots)

/-- The fields of an object that has ended. -/
def finish : {β σ : Type} → Fields β σ → σ → Except Error β
  | _, _, nil, _ => .ok ()
  | _, _, cons f rest, (slot, slots) => do
    let a ←
      match slot.or f.presence.inObject with
      | some a => .ok a
      | none => .error (.missingField f.name)
    let b ← finish rest slots
    return (a, b)

/-- Decodes the members of an object, some fields found before. -/
def ofMembers {β σ : Type} (fields : Fields β σ) (origin : Origin) (depth : Nat) (slots : σ) :
    Members → Except Error β
  | .close => fields.finish slots
  | .stop f => .error (.fault f)
  | .noName used _ => .error (.fault used)
  | .more none _ _ => .error (.fault .malformed)
  | .more (some name) tree rest =>
    match fields.store origin depth name tree slots with
    | .error e => .error e
    | .ok slots => fields.ofMembers origin depth slots rest

/-- Decodes the positional form, giving what follows the last field; `index` counts the fields before
and `expected` names the record. -/
def ofElements (origin : Origin) (depth : Nat) (expected : String) :
    {β σ : Type} → Fields β σ → Nat → Elements → Except Error (β × Elements)
  | _, _, nil, _, rest => .ok ((), rest)
  | _, _, cons _ _, _, .stop f => .error (.fault f)
  | _, _, cons f fields, index, .close =>
    match f.presence.inArray with
    | none => .error (.invalidLength index expected)
    | some a =>
      (ofElements origin depth expected fields (index + 1) .close).map fun (b, rest) => ((a, b), rest)
  | _, _, cons f fields, index, .more tree rest => do
    let a ← f.codec.decode origin depth tree
    let (b, rest) ← ofElements origin depth expected fields (index + 1) rest
    return ((a, b), rest)

/-- The written members of a record. -/
def members : {β σ : Type} → Fields β σ → β → List (String × Value)
  | _, _, nil, _ => []
  | _, _, cons f rest, (a, b) =>
    if f.hidden a then rest.members b else (f.name, f.codec.encode a) :: rest.members b

end Fields

/-- The number of elements of an array. -/
def Elements.length : Elements → Nat
  | .close | .stop _ => 0
  | .more _ rest => rest.length + 1

/-- Elements after the last field of a positional form are an error. -/
def Elements.ended (origin : Origin) (total : Nat) : Elements → Except Error Unit
  | .close => .ok ()
  | .stop f => .error (.fault f)
  | .more _ _ =>
    match origin with
    | .text => .error (.fault .malformed)
    | .value => .error (.invalidLength total "fewer elements in array")

/-- How a record is named with its length. -/
def lengthText (name : String) (size : Nat) : String :=
  s!"struct {name} with {size} element" ++ if size = 1 then "" else "s"

/-- A record of the given name. -/
def Codec.record {α β σ : Type} (name : String) (fields : Fields β σ) (make : β → α) (parts : α → β) :
    Codec α where
  decode origin depth tree :=
    match tree with
    | .array items => descend depth fun depth => do
      let (b, rest) ← fields.ofElements origin depth (lengthText name fields.size) 0 items
      rest.ended origin items.length
      return make b
    | .object members => descend depth fun depth =>
      (fields.ofMembers origin depth fields.noSlots members).map make
    | tree => .error (tree.mismatch s!"struct {name}")
  encode a := .object (fields.members (parts a))

end TxRelay.Json
