import TxRelay.Event
import TxRelay.Message
import TxRelay.Quantity

/-!
# From events to messages

An event is converted (`to_message`) part by part in a fixed order, and the first part that does not
fit its kind is the error. A part may be absent only where the message lets it be.
-/

namespace TxRelay

/-- Why an event has no message (`TranslateError`). Each names the part and, where there is one, shows
its raw text. -/
inductive ConversionError where
  | missing (part : String)
  | quantity (part value : String)
  | hash (part value : String)
  | address (part value : String)
  | bytes (part reason : String)
  | unsupported (reason : String)
  deriving DecidableEq, Repr

/-- The text of an error. -/
def ConversionError.message : ConversionError → String
  | missing part => s!"Missing required field: {part}"
  | quantity part value => s!"Invalid hex quantity in '{part}': {value}"
  | hash part value => s!"Invalid hash in '{part}': expected 32 bytes, got {value}"
  | address part value => s!"Invalid address in '{part}': expected 20 bytes, got {value}"
  | bytes part reason => s!"Invalid hex data in '{part}': {reason}"
  | unsupported reason => s!"Unsupported event: {reason}"

namespace Conversion

variable {α β : Type}

/-- A part that must be there (`required`). -/
def present (part : String) : Option α → Except ConversionError α
  | some a => .ok a
  | none => .error (.missing part)

/-- A text that must have a reading. -/
def read (read? : List Char → Option α) (error : String → ConversionError) (text : String) :
    Except ConversionError α :=
  match read? text.toList with
  | some a => .ok a
  | none => .error (error text)

/-- A part that may be absent. -/
def maybe (f : α → Except ConversionError β) : Option α → Except ConversionError (Option β)
  | some a => (f a).map some
  | none => .ok none

/-- A quantity of 64 bits (`quantity`). -/
def word (part : String) (text : Option String) : Except ConversionError UInt64 := do
  read Quantity.word? (.quantity part) (← present part text)

/-- A quantity of 256 bits (`u256`). -/
def wide (part : String) (text : Option String) : Except ConversionError String := do
  read (fun cs => (Quantity.wide? cs).map String.ofList) (.quantity part) (← present part text)

/-- The number of the chain (`chain_id`). -/
def chain (text : Option String) : Except ConversionError UInt64 := do
  read Quantity.chain? (.quantity "chainId") (← present "chainId" text)

/-- Bytes of a hash. -/
def hashLength : Nat := 32

/-- Bytes of an address. -/
def addressLength : Nat := 20

/-- A hash that is there. -/
def hashOf (part : String) (text : String) : Except ConversionError String :=
  read (fun cs => (Quantity.fixed? hashLength cs).map String.ofList) (.hash part) text

/-- An address that is there. -/
def addressOf (part : String) (text : String) : Except ConversionError String :=
  read (fun cs => (Quantity.fixed? addressLength cs).map String.ofList) (.address part) text

/-- A hash (`hash32`). -/
def hash (part : String) (text : Option String) : Except ConversionError String := do
  hashOf part (← present part text)

/-- An address (`address`). -/
def address (part : String) (text : Option String) : Except ConversionError String := do
  addressOf part (← present part text)

/-- A byte string (`data`); an absent one is empty. -/
def bytes (part : String) (text : Option String) : Except ConversionError String :=
  match Quantity.bytes (text.elim (Quantity.mark []) String.toList) with
  | .ok cs => .ok (String.ofList cs)
  | .error fault => .error (.bytes part fault.message)

/-- The block (`block`). -/
def block (b : Event.Block) : Except ConversionError Message.Block := do
  let number ← word "block.number" b.number
  let hash ← hash "block.hash" b.hash
  let timestamp ← word "block.timestamp" b.timestamp
  return ⟨number, hash, timestamp⟩

/-- The transaction (`transaction`), its parts in the order in which they are looked at. -/
def transaction (t : Event.Transaction) : Except ConversionError Message.Transaction := do
  let hash ← hash "transaction.hash" t.hash
  let sender ← address "transaction.from" t.sender
  let recipient ← maybe (addressOf "transaction.to") t.recipient
  let nonce ← word "transaction.nonce" t.nonce
  let gas ← word "transaction.gas" t.gas
  let gasPrice ← wide "transaction.gasPrice" t.gasPrice
  let value ← wide "transaction.value" t.value
  let input ← bytes "transaction.input" t.input
  return ⟨hash, sender, recipient, nonce, gas, gasPrice, value, input⟩

/-- Whether the transaction succeeded, which `receipt` looks at first: exactly the two quantities zero
and one say so. -/
def status (text : Option String) : Except ConversionError Bool := do
  let s ← present "receipt.status" text
  if s = "0x1" then return true
  else if s = "0x0" then return false
  else throw (.quantity "receipt.status" s)

/-- A log entry (`log`). -/
def log (l : Event.Log) : Except ConversionError Message.Log := do
  let address ← address "log.address" l.address
  let topics ← l.topics.mapM (hashOf "log.topics")
  let data ← bytes "log.data" l.data
  let index ← word "log.logIndex" l.index
  return ⟨address, topics, data, index⟩

/-- The receipt (`receipt`). -/
def receipt (r : Event.Receipt) : Except ConversionError Message.Receipt := do
  let success ← status r.status
  let gasUsed ← word "receipt.gasUsed" r.gasUsed
  let contractAddress ← maybe (addressOf "receipt.contractAddress") r.contractAddress
  let logs ← r.logs.mapM log
  return ⟨success, gasUsed, contractAddress, logs⟩

/-- Whether a receipt reports a contract that its transaction cannot have created. -/
def contradicts (t : Message.Transaction) (r : Option Message.Receipt) : Bool :=
  t.recipient.isSome && r.any (·.contractAddress.isSome)

/-- Why such a receipt is refused. -/
def contradiction : ConversionError :=
  .unsupported "receipt reports a created contract for a call transaction"

end Conversion

/-- The message of an event (`to_message`). Whether the receipt fits the transaction is looked at
last. -/
def Event.toMessage (e : Event) : Except ConversionError Message := do
  let chainId ← Conversion.chain e.chainId
  let block ← Conversion.block (← Conversion.present "block" e.block)
  let transaction ← Conversion.transaction (← Conversion.present "transaction" e.transaction)
  let receipt ← Conversion.maybe Conversion.receipt e.receipt
  if Conversion.contradicts transaction receipt then throw Conversion.contradiction
  return ⟨chainId, block, transaction, receipt⟩

end TxRelay
