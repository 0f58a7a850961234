import TxRelay.Agent
import TxRelay.Endpoint
import TxRelay.Log
import TxRelay.Text.Utf8

/-!
# Transport

A call is carried to an agent as one POST request over HTTP, and what comes back is an exchange: a
status with a body, or nothing. Any status but a success is an error of the transport; the body of a
success is an answer to the remote call, and its result is the verdict. The calls of one connection
are numbered from 1, whatever they come to. An exchange may take its time, or never come.

Results:
* `verdict_status`: a status that is no success is an error of the transport.
* `respond_remoteAgent`: the reply of an agent behind a connection is the verdict of what comes back.
-/

namespace TxRelay.Transport

open TxRelay.Text

/-- The body of an answer. -/
inductive Body where
  | whole (bytes : List UInt8)
  /-- A body that breaks off. -/
  | broken (reason : String)
  deriving DecidableEq, Repr

/-- What comes back from a request. -/
inductive Exchange where
  | lost (reason : String)
  | answered (status : Nat) (body : Body)
  deriving DecidableEq, Repr

/-- Whether a status is a success. -/
def isSuccess (status : Nat) : Bool :=
  200 ≤ status && status < 300

/-- The text of a body; bytes that are no text are replaced. -/
def Body.text : Body → Except String String
  | whole bytes => .ok (String.ofList (Utf8.decodeLossy bytes))
  | broken reason => .error reason

/-- The verdict that the body of a success holds: that of its result, by `into_result`. -/
def verdictOf (text : String) : Except CallError Verdict :=
  match Rpc.Answer.codec.read text with
  | .error e => .error (.undecodable e)
  | .ok answer =>
    match answer.outcome with
    | .error e => .error (.remote e.remote)
    | .ok result =>
      match Verdict.codec.ofValue result with
      | .ok v => .ok v
      | .error e => .error (.undecodable e)

/-- The verdict that an exchange brings: the checks of `send_once`, and what `evaluate` makes of the
answer. -/
def Exchange.verdict : Exchange → Except CallError Verdict
  | lost reason => .error (.transport reason)
  | answered status body =>
    if isSuccess status then
      match body.text with
      | .ok text => verdictOf text
      | .error reason => .error (.transport reason)
    else
      let text :=
        match body.text with
        | .ok text => text
        | .error _ => ""
      .error (.transport s!"HTTP {status}: {text}")

/-- A connection to an agent, which is an `HttpAgentClient`. -/
structure Connection where
  endpoint : Endpoint
  /-- The number of the next call. -/
  next : UInt64
  deriving DecidableEq, Repr

/-- A new connection. -/
def Connection.open (e : Endpoint) : Connection :=
  ⟨e, 1⟩

/-- The call that a connection makes next for a request. -/
def Connection.nextCall (c : Connection) (r : Request) : Rpc.Call :=
  .evaluate c.next r

/-- Submits a request over a connection, as `evaluate` does: its number is taken first, whatever the
call comes to. What comes back is what `send` gives for the call. -/
def submit {m : Type → Type} [Monad m] (send : Endpoint → Rpc.Call → m Exchange) (r : Request) :
    StateT Connection m (Except CallError Verdict) := do
  let c ← get
  set { c with next := c.next + 1 }
  let exchange ← send c.endpoint (c.nextCall r)
  return exchange.verdict

/-- Submits a request; `carry` is what comes back from a call. -/
def Connection.evaluate (c : Connection) (carry : Rpc.Call → Exchange) (r : Request) :
    Except CallError Verdict × Connection :=
  Id.run ((submit (fun _ call => pure (carry call)) r).run c)

/-! ## Agents behind connections -/

/-- What comes back from a call, and when: an exchange after so many milliseconds, or nothing ever. -/
inductive Arrival where
  | after (delay : Nat) (exchange : Exchange)
  | never

/-- An exchange of which nothing more is said is there at once. -/
instance : Coe Exchange Arrival := ⟨.after 0⟩

/-- A connection that breaks off at once. -/
def Arrival.lost (reason : String) : Arrival :=
  Exchange.lost reason

/-- The call that carries a request, so many calls having been made before. -/
def numberedCall (index : Nat) (request : Request) : Rpc.Call :=
  .evaluate (UInt64.ofNat (index + 1)) request

/-- The agent behind a connection; `arrival` is what comes back from its `index`-th call, which is the
one numbered so from one. -/
def remoteAgent (e : Endpoint) (arrival : Nat → Rpc.Call → Arrival) : Agent where
  address := e.url
  respond index request :=
    let connection : Connection := ⟨e, UInt64.ofNat (index + 1)⟩
    match arrival index (connection.nextCall request) with
    | .after delay exchange =>
      ⟨delay, .answer (connection.evaluate (fun _ => exchange) request).1⟩
    | .never => ⟨0, .silence⟩

/-! ## The log -/

/-- What is logged when a connection is made (`connect`). -/
def connectedEntry (e : Endpoint) : Log.Entry :=
  ⟨.info, "chainfanout_http::client", "connected to agent", [Log.text "agent" e.url]⟩

/-- What is logged when a call is sent (`send_once`). -/
def sendingEntry (address : String) (number : Nat) (r : Request) : Log.Entry :=
  ⟨.trace, "chainfanout_http::client", "sending evaluate",
    [Log.text "agent" address, Log.count "id" number, Log.text "request_id" r.id]⟩

theorem verdict_status {status : Nat} {body : Body} (h : isSuccess status = false) :
    ∃ reason, (Exchange.answered status body).verdict = .error (.transport reason) := by
  simp [Exchange.verdict, h]

theorem respond_remoteAgent (e : Endpoint) (arrival : Nat → Rpc.Call → Arrival) (index : Nat)
    (request : Request) :
    (remoteAgent e arrival).respond index request =
      match arrival index (numberedCall index request) with
      | .after delay x => ⟨delay, .answer x.verdict⟩
      | .never => ⟨0, .silence⟩ := rfl

end TxRelay.Transport
