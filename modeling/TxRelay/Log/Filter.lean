import TxRelay.Log
import TxRelay.Text.Alphanumeric
import TxRelay.Text.Blank

/-!
# Log filters

A filter (`EnvFilter`) is a list of directives with commas between them. A directive is a level, a
target, or a target and a level; in brackets it may ask for a field that an entry must have. It may
also ask for a span or for the value of a field, and since no entry belongs to a span such a directive
lets nothing through. Of the directives that concern an entry, one with the longest target decides,
among those one that asks for a field, and of two alike the later one.

Results:
* `allows_default`: the filter that stands in for a malformed one lets an entry through up to the level
  of information.
* `allows_quiet`: the filter of a text without directives lets nothing through.
-/

namespace TxRelay.Log

open TxRelay.Text (isAlphanumeric isBlank trim)

/-- The entries that a filter lets through of a target: those up to a level, or none. -/
abbrev Threshold := Option Level

/-- What a directive says about targets that begin with a text, and about the entries that have a
field if it asks for one. -/
structure Directive where
  target : String
  field : Option String
  threshold : Threshold
  deriving DecidableEq, Repr

/-- A filter. -/
abbrev Filter := List Directive

namespace Directive

/-- The thresholds by number. -/
def numbered : List Threshold :=
  [none, some .error, some .warn, some .info, some .debug, some .trace]

/-- The number that a text denotes: digits, possibly after a plus sign. -/
def number? (text : List Char) : Option Nat :=
  let digits :=
    match text with
    | '+' :: rest => rest
    | rest => rest
  if digits.isEmpty || !digits.all Char.isDigit then none else some (Nat.ofDigitChars 10 digits 0)

/-- The threshold that a text names, in letters of either case or by number. -/
def threshold? (text : List Char) : Option Threshold :=
  match number? text with
  | some n => numbered[n]?
  | none =>
    match String.ofList (text.map Char.toLower) with
    | "" => some (some .error)
    | "off" => some none
    | "error" => some (some .error)
    | "warn" => some (some .warn)
    | "info" => some (some .info)
    | "debug" => some (some .debug)
    | "trace" => some (some .trace)
    | _ => none

/-- Whether a directive may begin with a character. -/
def mayBegin (c : Char) : Bool :=
  c = '-' || c = ':' || c = '_' || isAlphanumeric c

/-- What a directive is written of: a target, the span and the field in brackets, and a level after an
equals sign. A span alone has no field, and one before a field may be empty. -/
structure Parts where
  target : List Char
  brackets : Option (List Char × Option (List Char))
  level : Option (List Char)

/-- The level after brackets, where blanks may stand for none. -/
def splitLevel : List Char → Option (Option (List Char))
  | '=' :: level => some (some level)
  | rest => if rest.all isBlank then some none else none

/-- The parts of a directive with brackets, from the opening bracket on. -/
def splitBrackets (target text : List Char) : Option Parts :=
  let span := text.takeWhile fun c => c ≠ ']' && c ≠ '\x7b'
  match text.drop span.length with
  | ']' :: rest => (splitLevel rest).map fun level => ⟨target, some (span, none), level⟩
  | '\x7b' :: rest =>
    let field := rest.takeWhile (· ≠ '\x7d')
    match rest.drop field.length with
    | '\x7d' :: ']' :: after =>
      if field.isEmpty then none
      else (splitLevel after).map fun level => ⟨target, some (span, some field), level⟩
    | _ => none
  | _ => none

/-- The parts of a directive that begins with no blank. -/
def split (text : List Char) : Option Parts :=
  match text with
  | [] => none
  | '[' :: rest => splitBrackets [] rest
  | c :: _ =>
    if mayBegin c then
      let target := text.takeWhile fun c => c ≠ '=' && c ≠ '['
      match text.drop target.length with
      | '=' :: level => some ⟨target, none, some level⟩
      | '[' :: rest => splitBrackets target rest
      | _ => some ⟨target, none, none⟩
    else none

/-- The directive of a text that is a level or a target. -/
def levelOrTarget (text : List Char) : Directive :=
  match threshold? text with
  | some threshold => ⟨"", none, threshold⟩
  | none => ⟨String.ofList text, none, some .trace⟩

namespace Parts

/-- The threshold that parts ask for: everything where the level is missing or empty. -/
def threshold (p : Parts) : Option Threshold :=
  match p.level with
  | none | some [] => some (some .trace)
  | some level => threshold? level

/-- The directive that parts make. One that asks for a span or for a value is none. -/
def directive (p : Parts) : Option (Option Directive) :=
  match p.brackets with
  | none =>
    match p.level with
    | none => some (some (levelOrTarget p.target))
    | some _ => p.threshold.map fun threshold => some ⟨String.ofList p.target, none, threshold⟩
  | some (span, field) =>
    p.threshold.map fun threshold =>
      match span, field with
      | [], some field =>
        if field.contains '=' then none
        else some ⟨String.ofList p.target, some (String.ofList field), threshold⟩
      | _, _ => none

end Parts

/-- Reads a directive. One that begins with a blank must have no level, and since nothing that an entry
has begins so it lets nothing through. One that lets nothing through is none. -/
def read (text : List Char) : Option (Option Directive) :=
  if text.head?.any isBlank then
    match split (trim text) with
    | some ⟨_, _, none⟩ => some none
    | _ => none
  else (split text).bind Parts.directive

/-- Whether an entry has a field. The message is one. -/
def hasField (e : Entry) (name : String) : Bool :=
  name = "message" || e.fields.any fun field => field.1 = name

/-- Whether a directive says something about an entry. -/
def concerns (d : Directive) (e : Entry) : Bool :=
  d.target.toList.isPrefixOf e.target.toList && d.field.all (hasField e)

/-- Whether the field of the first directive counts more than that of the second. -/
def fieldOutranks : Option String → Option String → Bool
  | some a, some b => b < a
  | some _, none => true
  | none, _ => false

/-- Whether the first of two directives that concern one entry decides. -/
def outranks (a b : Directive) : Bool :=
  b.target.length < a.target.length ||
    (a.target = b.target && fieldOutranks a.field b.field)

end Directive

namespace Filter

/-- Adds a directive in place of one with the same target and field. -/
def add (f : Filter) (d : Directive) : Filter :=
  f.filter (fun e => e.target ≠ d.target || e.field ≠ d.field) ++ [d]

/-- The filter that stands in for a malformed one, as `init_tracing` has it. -/
def default : Filter := [⟨"", none, some .info⟩]

/-- The filter of a text without directives, which lets nothing through. -/
def quiet : Filter := [⟨"", none, none⟩]

/-- Reads a filter, unless it is malformed. -/
def read? (text : String) : Option Filter := do
  let parts := ((text.splitOn ",").map String.toList).filter (!·.isEmpty)
  let directives ← parts.mapM Directive.read
  if parts.isEmpty then return quiet
  else return (directives.filterMap id).foldl add []

/-- Reads a filter; a malformed one is replaced. -/
def read (text : String) : Filter :=
  (read? text).getD default

/-- The one of two directives that decides. -/
def stronger (best : Option Directive) (d : Directive) : Option Directive :=
  match best with
  | none => some d
  | some b => if d.outranks b then some d else some b

/-- The directive that decides about an entry. -/
def deciding (f : Filter) (e : Entry) : Option Directive :=
  (f.filter (·.concerns e)).foldl stronger none

/-- Whether a filter lets an entry through. -/
def allows (f : Filter) (e : Entry) : Bool :=
  match f.deciding e with
  | some ⟨_, _, some level⟩ => e.level.rank ≤ level.rank
  | _ => false

theorem allows_default (e : Entry) : allows default e = decide (e.level.rank ≤ 3) := by
  simp [allows, deciding, default, stronger, Directive.concerns]
  rfl

theorem allows_quiet (e : Entry) : allows quiet e = false := by
  simp [allows, deciding, quiet, stronger, Directive.concerns]

end Filter

end TxRelay.Log
