import TxRelay.Request

/-!
# Remote calls

The envelope of a call over JSON-RPC 2.0. A call has one parameter, the request as a free value, and
a number of its own. An answer carries a result or an error object; the error object counts where
both are there.

Results:
* `outcome_error`: an answer with an error object is that error, whatever else it holds.
* `outcome_result`: an answer without one is its result, null if there is none.
-/

namespace TxRelay.Rpc

open Json (Codec Field Value)

/-- The identifier of a call or an answer (`RpcId`); null answers a call that could not be read. -/
inductive Id where
  | number (n : UInt64)
  | null
  deriving DecidableEq, Repr

/-- The codec of identifiers. -/
def Id.codec : Codec Id where
  decode _ depth tree := do
    match ← tree.free depth with
    | .number (.natural n) => return .number (UInt64.ofNat n)
    | .null => return .null
    | _ => throw (.noVariant "RpcId")
  encode
    | .number n => .number (.natural n.toNat)
    | .null => .null

/-- A call (`JsonRpcRequest`). -/
structure Call where
  version : String
  method : String
  params : List Value
  id : Id
  deriving Repr

/-- The codec of calls. -/
def Call.codec : Codec Call :=
  .record "JsonRpcRequest"
    (.cons (.required "jsonrpc" .text) <|
      .cons (.required "method" .text) <|
      .cons (.required "params" (.list .free)) <|
      .cons (.required "id" Id.codec) .nil)
    (fun (version, method, params, id, _) => ⟨version, method, params, id⟩)
    (fun c => (c.version, c.method, c.params, c.id, ()))

/-- The version of the protocol. -/
def protocolVersion : String := "2.0"

/-- The method that every agent serves (`EVALUATE_METHOD`). -/
def evaluateMethod : String := "agent_evaluate"

/-- The call that submits a request (`evaluate`). -/
def Call.evaluate (id : UInt64) (r : Request) : Call :=
  ⟨protocolVersion, evaluateMethod, [(Request.codec.encode r).sorted], .number id⟩

/-- What an agent says in place of a result (`RemoteError`). -/
structure Remote where
  code : Int64
  message : String
  deriving DecidableEq, Repr

/-- The text of a remote error. -/
def Remote.text (r : Remote) : String :=
  s!"{r.code.toInt}: {r.message}"

/-- An error object (`JsonRpcError`). -/
structure ErrorObject where
  code : Int64
  message : String
  data : Option Value
  deriving Repr

/-- The codec of error objects. -/
def ErrorObject.codec : Codec ErrorObject :=
  .record "JsonRpcError"
    (.cons (.required "code" .integer) <|
      .cons (.required "message" .text) <|
      .cons ((Field.nullable "data" .free).hide Option.isNone) .nil)
    (fun (code, message, data, _) => ⟨code, message, data⟩)
    (fun e => (e.code, e.message, e.data, ()))

/-- The remote error that an error object reports (`from`): its data is dropped. -/
def ErrorObject.remote (e : ErrorObject) : Remote :=
  ⟨e.code, e.message⟩

/-- An answer (`JsonRpcResponse`). -/
structure Answer where
  version : String
  id : Id
  result : Option Value
  error : Option ErrorObject
  deriving Repr

/-- The codec of answers. -/
def Answer.codec : Codec Answer :=
  .record "JsonRpcResponse"
    (.cons (.required "jsonrpc" .text) <|
      .cons (.required "id" Id.codec) <|
      .cons ((Field.nullable "result" .free).hide Option.isNone) <|
      .cons ((Field.nullable "error" ErrorObject.codec).hide Option.isNone) .nil)
    (fun (version, id, result, error, _) => ⟨version, id, result, error⟩)
    (fun a => (a.version, a.id, a.result, a.error, ()))

/-- The result of an answer, or its error object (`into_result`). -/
def Answer.outcome (a : Answer) : Except ErrorObject Value :=
  match a.error with
  | some e => .error e
  | none => .ok (a.result.getD .null)

theorem outcome_error {a : Answer} {e : ErrorObject} (h : a.error = some e) :
    a.outcome = .error e := by
  simp [Answer.outcome, h]

theorem outcome_result {a : Answer} (h : a.error = none) :
    a.outcome = .ok (a.result.getD .null) := by
  simp [Answer.outcome, h]

end TxRelay.Rpc
