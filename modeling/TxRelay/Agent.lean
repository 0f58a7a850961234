import TxRelay.Rpc
import TxRelay.Verdict

/-!
# Agents

An agent answers the calls of one worker. What becomes of a call is a reply: after a delay the call
ends with a verdict or an error or breaks down, or it never ends. The caller waits up to a limit; a
call that ends exactly at the limit has ended in time.

Results:
* `duration_le`: no call lasts longer than its limit.
* `outcome_late`: a call that would last longer is a timeout.
-/

namespace TxRelay

/-- Why a call brought no verdict that counts as a success (`AgentError`). -/
inductive CallError where
  /-- The call was not answered within its limit of so many milliseconds. -/
  | timeout (limit : Nat)
  /-- The request or the answer was not carried, or not in the right way. -/
  | transport (reason : String)
  /-- The agent answered with an error object. -/
  | remote (error : Rpc.Remote)
  /-- The agent answered that it refused the request. -/
  | rejected (reason : String)
  /-- The answer is no verdict. -/
  | undecodable (error : Json.Error)
  | other (text : String)
  deriving DecidableEq, Repr

namespace CallError

/-- The text of an error. -/
def message : CallError → String
  | timeout limit => s!"Evaluate call timed out after {limit}ms"
  | transport reason => s!"HTTP error: {reason}"
  | remote error => s!"RPC error {error.text}"
  | rejected reason => s!"Agent rejected request: {reason}"
  | undecodable error => s!"Deserialization error: {error.message}"
  | other text => text

/-- Whether the call took too long (`is_timeout`). -/
def isTimeout : CallError → Bool
  | timeout _ => true
  | _ => false

/-- Whether the agent dealt with the request and refused it (`is_rejection`). -/
def isRejection : CallError → Bool
  | rejected _ | remote _ => true
  | _ => false

end CallError

/-- How a call ends by itself. -/
inductive Ending where
  | answer (result : Except CallError Verdict)
  /-- The call never ends. -/
  | silence
  /-- The caller breaks down with the call. -/
  | crash (reason : String)

/-- What becomes of a call that is waited for without limit. -/
structure Reply where
  /-- After how many milliseconds the call ends. -/
  delay : Nat
  ending : Ending

/-- What a call comes to. -/
inductive Outcome where
  | verdict (v : Verdict)
  | error (e : CallError)
  | crash (reason : String)
  deriving DecidableEq, Repr

/-- A verdict counts as a success only if it says so, as the end of a worker's `call` has it. -/
def Outcome.ofAnswer : Except CallError Verdict → Outcome
  | .ok v => if v.succeeded then .verdict v else .error (.rejected v.problemText)
  | .error e => .error e

namespace Reply

/-- Whether a call ends within a limit, that of `timeout`. -/
def inTime (r : Reply) (limit : Nat) : Bool :=
  match r.ending with
  | .silence => false
  | _ => r.delay ≤ limit

/-- How long a call lasts. -/
def duration (r : Reply) (limit : Nat) : Nat :=
  if r.inTime limit then r.delay else limit

/-- What a call comes to. -/
def outcome (r : Reply) (limit : Nat) : Outcome :=
  if r.inTime limit then
    match r.ending with
    | .answer result => .ofAnswer result
    | .silence => .error (.timeout limit)
    | .crash reason => .crash reason
  else .error (.timeout limit)

/-- The reply of an agent that has nothing to say: success at once. -/
def plain : Reply := ⟨0, .answer (.ok .none)⟩

theorem duration_le (r : Reply) (limit : Nat) : r.duration limit ≤ limit := by
  rw [duration, inTime]
  split <;> split <;> simp_all

theorem outcome_late {r : Reply} {limit : Nat} (h : r.inTime limit = false) :
    r.outcome limit = .error (.timeout limit) := by
  simp [outcome, h]

end Reply

/-- An agent (`AgentClient`): its address, and its reply to the `index`-th call, which is what becomes
of `evaluate`. -/
structure Agent where
  address : String
  respond (index : Nat) (request : Request) : Reply

namespace Agent

/-- The reply that a script has for a call: the last one stands for all further ones. -/
def scriptedReply (script : List Reply) (index : Nat) : Reply :=
  (script[index]?.or script.getLast?).getD .plain

/-- An agent that follows a script. -/
def scripted (address : String) (script : List Reply) : Agent :=
  ⟨address, fun index _ => scriptedReply script index⟩

end Agent

end TxRelay
