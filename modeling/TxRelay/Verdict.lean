import TxRelay.Json.Record

/-!
# Verdicts

What an agent answers to a request: whether it could deal with it, what went wrong if not, and what
it found in the transaction.
-/

namespace TxRelay

open Json (Codec Field)

namespace Verdict

/-- Whether an agent dealt with a request (`ResponseStatus`). -/
inductive Status where
  | success
  | error
  deriving DecidableEq, Repr

/-- The name of a status. -/
def Status.name : Status → String
  | success => "SUCCESS"
  | error => "ERROR"

/-- The codec of statuses. -/
def Status.codec : Codec Status :=
  .choice [success, error] name

/-- What went wrong (`ResponseError`). -/
structure Problem where
  message : String
  deriving DecidableEq, Repr

/-- The codec of problems. -/
def Problem.codec : Codec Problem :=
  .record "ResponseError" (.cons (.required "message" .text) .nil)
    (fun (message, _) => ⟨message⟩)
    (fun p => (p.message, ()))

/-- How grave a finding is (`Severity`). -/
inductive Severity where
  | unknown
  | info
  | low
  | medium
  | high
  | critical
  deriving DecidableEq, Repr

/-- The name of a severity. -/
def Severity.name : Severity → String
  | unknown => "UNKNOWN"
  | info => "INFO"
  | low => "LOW"
  | medium => "MEDIUM"
  | high => "HIGH"
  | critical => "CRITICAL"

/-- The codec of severities. -/
def Severity.codec : Codec Severity :=
  .choice [unknown, info, low, medium, high, critical] name

/-- Something that an agent found in a transaction (`Finding`). -/
structure Finding where
  alertId : String
  name : String
  description : String
  severity : Severity
  kind : String
  protocol : String
  /-- Further entries, sorted by name. -/
  metadata : List (String × String)
  deriving DecidableEq, Repr

/-- The codec of findings. -/
def Finding.codec : Codec Finding :=
  .record "Finding"
    (.cons (.required "alertId" .text) <|
      .cons (.required "name" .text) <|
      .cons (.defaulted "description" .text "") <|
      .cons (.required "severity" Severity.codec) <|
      .cons (.defaulted "type" .text "") <|
      .cons (.defaulted "protocol" .text "") <|
      .cons (.defaulted "metadata" (.map .text) []) .nil)
    (fun (alertId, name, description, severity, kind, protocol, metadata, _) =>
      ⟨alertId, name, description, severity, kind, protocol, metadata⟩)
    (fun f =>
      (f.alertId, f.name, f.description, f.severity, f.kind, f.protocol, f.metadata, ()))

end Verdict

/-- An agent's answer to a request (`EvaluateResponse`). -/
structure Verdict where
  status : Verdict.Status
  problems : List Verdict.Problem
  findings : List Verdict.Finding
  /-- Further entries, sorted by name. -/
  metadata : List (String × String)
  timestamp : Option String
  deriving DecidableEq, Repr

namespace Verdict

/-- The codec of verdicts. Problems, entries and the time are left out where there are none. -/
def codec : Codec Verdict :=
  .record "EvaluateResponse"
    (.cons (.required "status" Status.codec) <|
      .cons ((Field.defaulted "errors" (.list Problem.codec) []).hide List.isEmpty) <|
      .cons (.defaulted "findings" (.list Finding.codec) []) <|
      .cons ((Field.defaulted "metadata" (.map .text) []).hide List.isEmpty) <|
      .cons ((Field.absent "timestamp" .text).hide Option.isNone) .nil)
    (fun (status, problems, findings, metadata, timestamp, _) =>
      ⟨status, problems, findings, metadata, timestamp⟩)
    (fun v => (v.status, v.problems, v.findings, v.metadata, v.timestamp, ()))

/-- A success without findings (`empty`). -/
def none : Verdict := ⟨.success, [], [], [], .none⟩

/-- Whether the agent dealt with the request (`is_success`). -/
def succeeded (v : Verdict) : Bool :=
  v.status = .success

/-- The problems in one text (`error_summary`). -/
def problemText (v : Verdict) : String :=
  if v.problems.isEmpty then "agent returned error status"
  else "; ".intercalate (v.problems.map (·.message))

/-- The text of a verdict in the log (`render`). -/
def render (v : Verdict) : String :=
  codec.write v

end Verdict

end TxRelay
