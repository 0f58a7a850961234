/-!
# Failures of a command

A failure is a message with the causes below it, the nearest first, each put there by `context`. Its
text, which is what `main` leaves, shows the causes indented; more than one are numbered from zero.
-/

namespace TxRelay.Command

/-- Why a command failed. -/
structure Failure where
  message : String
  causes : List String
  deriving DecidableEq, Repr

namespace Failure

/-- The lines of a text, the first after a head and the others after an indentation. -/
def indented (head indentation text : String) : String :=
  head ++ ("\n" ++ indentation).intercalate (text.splitOn "\n")

/-- A number at the right of five columns. -/
def column (n : Nat) : String :=
  let digits := toString n
  "".pushn ' ' (5 - digits.length) ++ digits

/-- The text of causes. -/
def causesText : List String → List String
  | [cause] => [indented "    " "    " cause]
  | causes => causes.mapIdx fun n cause => indented s!"{column n}: " "       " cause

/-- The text of a failure. -/
def text (f : Failure) : String :=
  let head := s!"Error: {f.message}"
  if f.causes.isEmpty then head
  else "\n".intercalate (head :: "" :: "Caused by:" :: causesText f.causes)

/-- A failure put below another message. -/
def under (message : String) (f : Failure) : Failure :=
  ⟨message, f.message :: f.causes⟩

end Failure

end TxRelay.Command
