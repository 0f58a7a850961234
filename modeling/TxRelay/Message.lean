import TxRelay.Json.Record

/-!
# Messages

The canonical form of an event, as agents receive it. Quantities of 64 bits are numbers; hashes,
addresses, byte strings and quantities of 256 bits are hexadecimal texts in lower case.
-/

namespace TxRelay

open Json (Codec Field Fields)

namespace Message

/-- The block that holds the transaction (`BlockInfo`). -/
structure Block where
  number : UInt64
  hash : String
  timestamp : UInt64
  deriving DecidableEq, Repr

/-- The transaction (`TransactionInfo`). -/
structure Transaction where
  hash : String
  sender : String
  recipient : Option String
  nonce : UInt64
  gas : UInt64
  gasPrice : String
  value : String
  input : String
  deriving DecidableEq, Repr

/-- A log entry of the receipt (`LogInfo`). -/
structure Log where
  address : String
  topics : List String
  data : String
  index : UInt64
  deriving DecidableEq, Repr

/-- The outcome of the transaction (`ReceiptInfo`). -/
structure Receipt where
  success : Bool
  gasUsed : UInt64
  contractAddress : Option String
  logs : List Log
  deriving DecidableEq, Repr

end Message

/-- A canonical message (`TransactionMessage`). -/
structure Message where
  chainId : UInt64
  block : Message.Block
  transaction : Message.Transaction
  receipt : Option Message.Receipt
  deriving DecidableEq, Repr

namespace Message

/-- Whether the transaction creates a contract (`is_contract_creation`). -/
def createsContract (m : Message) : Bool :=
  m.transaction.recipient.isNone

/-- The codec of blocks. -/
def Block.codec : Codec Block :=
  .record "BlockInfo"
    (.cons (.required "number" .word) <|
      .cons (.required "hash" .text) <|
      .cons (.required "timestamp" .word) .nil)
    (fun (number, hash, timestamp, _) => ⟨number, hash, timestamp⟩)
    (fun b => (b.number, b.hash, b.timestamp, ()))

/-- The codec of transactions. -/
def Transaction.codec : Codec Transaction :=
  .record "TransactionInfo"
    (.cons (.required "hash" .text) <|
      .cons (.required "from" .text) <|
      .cons ((Field.absent "to" .text).hide Option.isNone) <|
      .cons (.required "nonce" .word) <|
      .cons (.required "gas" .word) <|
      .cons (.required "gas_price" .text) <|
      .cons (.required "value" .text) <|
      .cons (.required "input" .text) .nil)
    (fun (hash, sender, recipient, nonce, gas, gasPrice, value, input, _) =>
      ⟨hash, sender, recipient, nonce, gas, gasPrice, value, input⟩)
    (fun t =>
      (t.hash, t.sender, t.recipient, t.nonce, t.gas, t.gasPrice, t.value, t.input, ()))

/-- The codec of log entries. -/
def Log.codec : Codec Log :=
  .record "LogInfo"
    (.cons (.required "address" .text) <|
      .cons (.required "topics" (.list .text)) <|
      .cons (.required "data" .text) <|
      .cons (.required "log_index" .word) .nil)
    (fun (address, topics, data, index, _) => ⟨address, topics, data, index⟩)
    (fun l => (l.address, l.topics, l.data, l.index, ()))

/-- The codec of receipts. -/
def Receipt.codec : Codec Receipt :=
  .record "ReceiptInfo"
    (.cons (.required "success" .flag) <|
      .cons (.required "gas_used" .word) <|
      .cons ((Field.absent "contract_address" .text).hide Option.isNone) <|
      .cons (.required "logs" (.list Log.codec)) .nil)
    (fun (success, gasUsed, contractAddress, logs, _) =>
      ⟨success, gasUsed, contractAddress, logs⟩)
    (fun r => (r.success, r.gasUsed, r.contractAddress, r.logs, ()))

/-- The codec of messages. -/
def codec : Codec Message :=
  .record "TransactionMessage"
    (.cons (.required "chain_id" .word) <|
      .cons (.required "block" Block.codec) <|
      .cons (.required "transaction" Transaction.codec) <|
      .cons ((Field.absent "receipt" Receipt.codec).hide Option.isNone) .nil)
    (fun (chainId, block, transaction, receipt, _) => ⟨chainId, block, transaction, receipt⟩)
    (fun m => (m.chainId, m.block, m.transaction, m.receipt, ()))

end Message

end TxRelay
