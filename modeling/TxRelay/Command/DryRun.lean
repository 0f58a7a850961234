import TxRelay.Command.Outside

/-!
# The dry run

A dry run (`translate`) converts the items of an input and prints one line each: the message, or why
there is none. An input that fails ends the run; what was printed before stays.
-/

namespace TxRelay.Command.DryRun

open Json (Value)

/-- The line of an item. -/
def line (item : Feed.Item) : String :=
  match item.toMessage with
  | .ok message => (Value.object [("message", (Message.codec.encode message).sorted)]).text
  | .error e => (Value.object [("error", .string e.message)]).text

/-- Whether an item has a message. -/
def hasMessage (item : Feed.Item) : Bool :=
  match item.toMessage with
  | .ok _ => true
  | .error _ => false

/-- The items before an error, and the error. -/
def untilError : List Feed.Lines.Numbered → List Feed.Item × Option FeedError
  | [] => ([], none)
  | n :: rest =>
    match n.result with
    | .ok item =>
      let (items, error) := untilError rest
      (item :: items, error)
    | .error e => ([], some e)

/-- What is logged at the end. -/
def finishedEntry (items : List Feed.Item) : Log.Entry :=
  ⟨.info, "chainfanout::cmd_translate", "translation finished",
    [Log.count "translated" (items.filter hasMessage).length,
      Log.count "failed" (items.filter (!hasMessage ·)).length]⟩

/-- Converts the items of an input. -/
def ofItems (numbered : List Feed.Lines.Numbered) : Outcome :=
  let (items, error) := untilError numbered
  let failures := numbered.filterMap (·.complaint?)
  match error with
  | some e => ⟨items.map line, .failure (feedFailure e), failures, []⟩
  | none => ⟨items.map line, .success, [finishedEntry items], []⟩

/-- Carries out a dry run (`run` of the command). -/
def carryOut {m : Type → Type} [Monad m] (o : Outside m) (input : String) : m Outcome := do
  match ← o.openInput input with
  | .ok numbered => return ofItems numbered
  | .error f => return .failed f []

end TxRelay.Command.DryRun
