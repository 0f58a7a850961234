import TxRelay.Json.Tree
import TxRelay.Text.Quoted

/-!
# Decoding errors

Why a value is not of the type asked for. Faults of the text are told apart only as a text that ends
too early and one that is malformed.
-/

namespace TxRelay.Json

open TxRelay.Text (quoted)

/-- What was found in place of what was expected. -/
inductive Found where
  | null
  | bool (b : Bool)
  | number (n : Number)
  | string (s : String)
  | sequence
  | map
  deriving DecidableEq, Repr

/-- Why decoding failed. -/
inductive Error where
  | fault (f : Fault)
  | invalidType (found : Found) (expected : String)
  | invalidValue (found : Found) (expected : String)
  | invalidLength (length : Nat) (expected : String)
  | missingField (name : String)
  | duplicateField (name : String)
  | unknownVariant (name : String) (variants : List String)
  /-- No variant of an untagged choice fits. -/
  | noVariant (choice : String)
  deriving DecidableEq, Repr

/-- The text of what was found. -/
def Found.text : Found → String
  | .null => "null"
  | .bool b => s!"boolean `{b}`"
  | .number n =>
    match n with
    | .real _ => s!"floating point `{String.ofList n.chars}`"
    | _ => s!"integer `{String.ofList n.chars}`"
  | .string s => s!"string {quoted s}"
  | .sequence => "sequence"
  | .map => "map"

/-- The variants of a choice, each in backquotes. -/
def variantsText : List String → String
  | [] => "there are no variants"
  | [a] => s!"expected `{a}`"
  | [a, b] => s!"expected `{a}` or `{b}`"
  | names => "expected one of " ++ ", ".intercalate (names.map fun n => s!"`{n}`")

/-- The text of an error. -/
def Error.message : Error → String
  | .fault .cutOff => "<json eof>"
  | .fault .malformed => "<json syntax error>"
  | .invalidType found expected => s!"invalid type: {found.text}, expected {expected}"
  | .invalidValue found expected => s!"invalid value: {found.text}, expected {expected}"
  | .invalidLength length expected => s!"invalid length {length}, expected {expected}"
  | .missingField name => s!"missing field `{name}`"
  | .duplicateField name => s!"duplicate field `{name}`"
  | .unknownVariant name variants => s!"unknown variant `{name}`, {variantsText variants}"
  | .noVariant choice => s!"data did not match any variant of untagged enum {choice}"

end TxRelay.Json
