import TxRelay.Json.Record

/-!
# Events

A transaction event as a node reports it: quantities in hexadecimal, addresses in mixed case, and any
part possibly absent. Whether the parts make sense is decided when the event is made a message.
-/

namespace TxRelay

open Json (Codec Field Fields)

namespace Event

/-- The block that holds the transaction (`RawBlock`). -/
structure Block where
  number : Option String
  hash : Option String
  timestamp : Option String
  deriving DecidableEq, Repr

/-- The transaction (`RawTransaction`). Without a recipient it creates a contract. -/
structure Transaction where
  hash : Option String
  sender : Option String
  recipient : Option String
  nonce : Option String
  gas : Option String
  gasPrice : Option String
  value : Option String
  input : Option String
  deriving DecidableEq, Repr

/-- A log entry of the receipt (`RawLog`). -/
structure Log where
  address : Option String
  topics : List String
  data : Option String
  index : Option String
  deriving DecidableEq, Repr

/-- The outcome of the transaction (`RawReceipt`). -/
structure Receipt where
  status : Option String
  gasUsed : Option String
  contractAddress : Option String
  logs : List Log
  deriving DecidableEq, Repr

end Event

/-- A transaction event (`TransactionEvent`); a pending transaction has no receipt. -/
structure Event where
  chainId : Option String
  block : Option Event.Block
  transaction : Option Event.Transaction
  receipt : Option Event.Receipt
  deriving DecidableEq, Repr

namespace Event

/-- The codec of blocks. -/
def Block.codec : Codec Block :=
  .record "RawBlock"
    (.cons (.nullable "number" .text) <|
      .cons (.nullable "hash" .text) <|
      .cons (.nullable "timestamp" .text) .nil)
    (fun (number, hash, timestamp, _) => ⟨number, hash, timestamp⟩)
    (fun b => (b.number, b.hash, b.timestamp, ()))

/-- The codec of transactions. -/
def Transaction.codec : Codec Transaction :=
  .record "RawTransaction"
    (.cons (.nullable "hash" .text) <|
      .cons (.nullable "from" .text) <|
      .cons (.absent "to" .text) <|
      .cons (.nullable "nonce" .text) <|
      .cons (.nullable "gas" .text) <|
      .cons (.nullable "gasPrice" .text) <|
      .cons (.nullable "value" .text) <|
      .cons (.absent "input" .text) .nil)
    (fun (hash, sender, recipient, nonce, gas, gasPrice, value, input, _) =>
      ⟨hash, sender, recipient, nonce, gas, gasPrice, value, input⟩)
    (fun t =>
      (t.hash, t.sender, t.recipient, t.nonce, t.gas, t.gasPrice, t.value, t.input, ()))

/-- The codec of log entries. -/
def Log.codec : Codec Log :=
  .record "RawLog"
    (.cons (.nullable "address" .text) <|
      .cons (.defaulted "topics" (.list .text) []) <|
      .cons (.absent "data" .text) <|
      .cons (.nullable "logIndex" .text) .nil)
    (fun (address, topics, data, index, _) => ⟨address, topics, data, index⟩)
    (fun l => (l.address, l.topics, l.data, l.index, ()))

/-- The codec of receipts. -/
def Receipt.codec : Codec Receipt :=
  .record "RawReceipt"
    (.cons (.nullable "status" .text) <|
      .cons (.nullable "gasUsed" .text) <|
      .cons (.absent "contractAddress" .text) <|
      .cons (.defaulted "logs" (.list Log.codec) []) .nil)
    (fun (status, gasUsed, contractAddress, logs, _) =>
      ⟨status, gasUsed, contractAddress, logs⟩)
    (fun r => (r.status, r.gasUsed, r.contractAddress, r.logs, ()))

/-- The codec of events. -/
def codec : Codec Event :=
  .record "TransactionEvent"
    (.cons (.absent "chainId" .text) <|
      .cons (.absent "block" Block.codec) <|
      .cons (.absent "transaction" Transaction.codec) <|
      .cons (.absent "receipt" Receipt.codec) .nil)
    (fun (chainId, block, transaction, receipt, _) => ⟨chainId, block, transaction, receipt⟩)
    (fun e => (e.chainId, e.block, e.transaction, e.receipt, ()))

end Event

end TxRelay
