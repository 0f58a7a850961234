import TxRelay.Message

/-!
# Requests

A request is a message under an identifier. Every agent receives the same request for a message, so
that what the agents say about it can be put together.
-/

namespace TxRelay

open Json (Codec)

/-- A message under an identifier (`EvaluateRequest`). -/
structure Request where
  id : String
  message : Message
  deriving DecidableEq, Repr

namespace Request

/-- The codec of requests. -/
def codec : Codec Request :=
  .record "EvaluateRequest"
    (.cons (.required "requestId" .text) <|
      .cons (.required "event" Message.codec) .nil)
    (fun (id, message, _) => ⟨id, message⟩)
    (fun r => (r.id, r.message, ()))

/-- The hash of the transaction that a request is about. -/
def transactionHash (r : Request) : String :=
  r.message.transaction.hash

/-- A message under the `index`-th identifier of a supply (`tag`). -/
def tag (ids : Nat → String) (index : Nat) (message : Message) : Request :=
  ⟨ids index, message⟩

/-- A message tagged so many times, with the next identifiers of a supply. -/
def tagMany (ids : Nat → String) (message : Message) (count : Nat) : List Request :=
  (List.range count).map fun index => tag ids index message

end Request

end TxRelay
