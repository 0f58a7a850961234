import TxRelay.Conversion

/-!
# Feeds

A feed (`EventStream`) yields items one after the other: an item is an event, or a line that could
not be read as one. Between items a feed may pause; it ends, fails, or goes quiet for ever.
-/

namespace TxRelay

/-- Why a feed failed (`SourceError`). -/
inductive FeedError where
  | io (reason : String)
  | closed (reason : String)
  | other (text : String)
  deriving DecidableEq, Repr

/-- The text of an error. -/
def FeedError.message : FeedError → String
  | io reason => s!"IO error: {reason}"
  | closed reason => s!"Source closed unexpectedly: {reason}"
  | other text => text

namespace Feed

/-- One item of a feed (`InputEvent`). -/
inductive Item where
  | event (e : Event)
  | undecodable (line : Nat) (error : Json.Error)
  deriving DecidableEq, Repr

/-- The message of an item (`to_message`). -/
def Item.toMessage : Item → Except ConversionError Message
  | event e => e.toMessage
  | undecodable line error => .error (.bytes "event" s!"line {line}: {error.message}")

/-- The item that a text holds. -/
def Item.ofText (line : Nat) (text : String) : Item :=
  match Event.codec.read text with
  | .ok e => .event e
  | .error e => .undecodable line e

/-- What a feed does next. -/
inductive Step where
  | item (i : Item)
  /-- Nothing comes for so many milliseconds. -/
  | pause (duration : Nat)
  | fail (error : FeedError)
  /-- Nothing comes any more, yet the feed does not end. -/
  | quiet
  deriving DecidableEq, Repr

end Feed

end TxRelay
