import TxRelay.Json.Value

/-!
# Log entries

What the log says: a level, the part of the program that speaks, a message and named fields. Each part
has records of its own, which become entries. A measured time is a field that an entry has and does
not show, since it differs from run to run.

Results:
* `shown_of_all`: an entry without a measured time shows all its fields.
-/

namespace TxRelay.Log

open Json (Value)

/-- How grave an entry is. -/
inductive Level where
  | error
  | warn
  | info
  | debug
  | trace
  deriving DecidableEq, Repr

/-- The name of a level. -/
def Level.name : Level → String
  | error => "ERROR"
  | warn => "WARN"
  | info => "INFO"
  | debug => "DEBUG"
  | trace => "TRACE"

/-- The place of a level: entries up to a level are those whose place is not greater. -/
def Level.rank : Level → Nat
  | error => 1
  | warn => 2
  | info => 3
  | debug => 4
  | trace => 5

/-- An entry of the log. -/
structure Entry where
  level : Level
  target : String
  message : String
  fields : List (String × Value)
  deriving Repr

/-- A text as a field. -/
def text (name value : String) : String × Value :=
  (name, .string value)

/-- A number as a field. -/
def count (name : String) (n : Nat) : String × Value :=
  (name, .number (.natural n))

/-- A measured time as a field: its value is null, which no other field's is. -/
def measured (name : String) : String × Value :=
  (name, .null)

/-- Whether a field is shown. -/
def isShown : String × Value → Bool
  | (_, .null) => false
  | _ => true

/-- The fields that an entry shows. -/
def Entry.shown (e : Entry) : List (String × Value) :=
  e.fields.filter isShown

/-- An entry without its target, as an object. -/
def Entry.json (e : Entry) : Value :=
  .object (text "level" e.level.name :: text "message" e.message :: e.shown)

/-- The line of an entry in a log of JSON objects, which `init_tracing` sets up on demand. -/
def Entry.jsonLine (e : Entry) : String :=
  (Value.object
    [text "level" e.level.name, ("fields", .object (text "message" e.message :: e.shown)),
      text "target" e.target]).text

/-- The text of a field's value: a string as it is, anything else as JSON. -/
def fieldText : Value → String
  | .string s => s
  | v => v.text

/-- The line of an entry in a log for people. -/
def Entry.plainLine (e : Entry) : String :=
  " ".intercalate
    (s!"{e.level.name} {e.target}: {e.message}" ::
      e.shown.map fun (name, v) => s!"{name}={fieldText v}")

theorem shown_of_all (e : Entry) (h : ∀ field ∈ e.fields, isShown field = true) :
    e.shown = e.fields := by
  simpa [Entry.shown] using h

end TxRelay.Log
