import TxRelay.Agent
import TxRelay.Log

/-!
# Workers

A worker (`AgentWorker`) serves one agent. It takes requests from a queue of its own, one at a time,
and calls the agent with each. It stops when its queue is closed and empty or when the shutdown
signal is raised; a call in flight ends first, and requests still queued then are discarded.

A step is one thing that a worker does at one moment, the part of its `run` from one wait to the next;
none means that it can only wait.

Results:
* `step_stopped`: a worker that has stopped does nothing more.
* `step_signal`: a worker that waits for a request takes none once the signal is raised.
-/

namespace TxRelay

open Json (Codec)

namespace Worker

/-- The stages of a worker's life (`WorkerState`). -/
inductive Stage where
  | idle
  | running
  | draining
  | stopped
  deriving DecidableEq, Repr

/-- The name of a stage in the log. -/
def Stage.name : Stage → String
  | idle => "idle"
  | running => "running"
  | draining => "draining"
  | stopped => "stopped"

/-- The codec of stages. -/
def Stage.codec : Codec Stage :=
  .choice [idle, running, draining, stopped] fun
    | idle => "Idle"
    | running => "Running"
    | draining => "Draining"
    | stopped => "Stopped"

/-- What a worker has counted: the requests it took, and the calls by what they came to. -/
structure Counts where
  received : Nat
  succeeded : Nat
  failed : Nat
  rejected : Nat
  timedOut : Nat
  deriving DecidableEq, Repr

/-- Nothing counted yet. -/
def Counts.zero : Counts := ⟨0, 0, 0, 0, 0⟩

/-- The counts of a worker for its agent (`WorkerStats`). -/
structure Stats where
  agent : String
  counts : Counts
  deriving DecidableEq, Repr

/-- The codec of such counts. -/
def Stats.codec : Codec Stats :=
  .record "WorkerStats"
    (.cons (.required "agent" .text) <|
      .cons (.required "received" (.natural "u64")) <|
      .cons (.required "succeeded" (.natural "u64")) <|
      .cons (.required "failed" (.natural "u64")) <|
      .cons (.required "rejected" (.natural "u64")) <|
      .cons (.required "timed_out" (.natural "u64")) .nil)
    (fun (agent, received, succeeded, failed, rejected, timedOut, _) =>
      ⟨agent, received, succeeded, failed, rejected, timedOut⟩)
    (fun s =>
      (s.agent, s.counts.received, s.counts.succeeded, s.counts.failed, s.counts.rejected,
        s.counts.timedOut, ()))

/-- Counts one more call that came to an error. `process` asks about the time first. -/
def Counts.addError (c : Counts) (e : CallError) : Counts :=
  if e.isTimeout then { c with timedOut := c.timedOut + 1 }
  else if e.isRejection then { c with rejected := c.rejected + 1 }
  else { c with failed := c.failed + 1 }

/-- Counts one more call. -/
def Counts.add (c : Counts) : Outcome → Counts
  | .verdict _ => { c with succeeded := c.succeeded + 1 }
  | .error e => c.addError e
  | .crash _ => c

/-- What a worker logs: its `transition`s, what `process` says of a call, and the end of `run`. -/
inductive Record where
  | moved (source target : Stage)
  | answered (request : Request) (verdict : Verdict)
  | refused (request : Request) (error : CallError)
  | ended (counts : Counts) (cancelled : Bool)
  deriving DecidableEq, Repr

/-- A call that a worker made, and when it made it. -/
structure Call where
  request : Request
  start : Nat
  deriving DecidableEq, Repr

/-- What a worker is about. -/
inductive Activity where
  /-- It has not begun. -/
  | idle
  /-- It is ready for the next request. -/
  | waiting
  /-- It calls its agent, which takes until a moment and then comes to an outcome. -/
  | calling (request : Request) (finish : Nat) (outcome : Outcome)
  | stopped (cancelled : Bool)
  /-- It broke down with a call. -/
  | crashed (reason : String)
  deriving DecidableEq, Repr

/-- The stage that an activity belongs to. -/
def Activity.stage : Activity → Stage
  | idle => .idle
  | waiting | calling .. | crashed _ => .running
  | stopped _ => .stopped

/-- The records of a worker that stops, once the loop of `run` is left. -/
def farewell (counts : Counts) (cancelled : Bool) : List Record :=
  [.moved .running .draining, .moved .draining .stopped, .ended counts cancelled]

/-- The record of a call that came to an outcome. -/
def outcomeRecord (request : Request) : Outcome → List Record
  | .verdict v => [.answered request v]
  | .error e => [.refused request e]
  | .crash _ => []

end Worker

open Worker in
/-- A worker with its agent and its queue. -/
structure Worker where
  index : Nat
  agent : Agent
  /-- How long a call may take, in milliseconds. -/
  limit : Nat
  activity : Activity
  queue : List Request
  counts : Counts
  /-- The calls made so far. -/
  calls : List Call
  log : List Record

namespace Worker

/-- A worker that has not begun (`new`). -/
def fresh (index : Nat) (agent : Agent) (limit : Nat) (queue : List Request) : Worker :=
  ⟨index, agent, limit, .idle, queue, .zero, [], []⟩

/-- The stage of a worker. -/
def stage (w : Worker) : Stage :=
  w.activity.stage

/-- The counts for the worker's agent. -/
def stats (w : Worker) : Stats :=
  ⟨w.agent.address, w.counts⟩

/-- Begins to take requests. -/
def begin (w : Worker) : Worker :=
  { w with activity := .waiting, log := w.log ++ [.moved .idle .running] }

/-- Calls the agent with a request, leaving the others in the queue: `process` up to the wait in its
`call`. -/
def call (w : Worker) (now : Nat) (request : Request) (queue : List Request) : Worker :=
  let reply := w.agent.respond w.calls.length request
  { w with
    activity := .calling request (now + reply.duration w.limit) (reply.outcome w.limit)
    queue
    counts := { w.counts with received := w.counts.received + 1 }
    calls := w.calls ++ [⟨request, now⟩] }

/-- Ends a call: `process` after that wait. A call that breaks down takes the worker with it. -/
def conclude (w : Worker) (request : Request) (outcome : Outcome) : Worker :=
  match outcome with
  | .crash reason => { w with activity := .crashed reason, queue := [] }
  | outcome =>
    { w with
      activity := .waiting
      counts := w.counts.add outcome
      log := w.log ++ outcomeRecord request outcome }

/-- Stops and gives up the queue. -/
def stop (w : Worker) (cancelled : Bool) : Worker :=
  { w with
    activity := .stopped cancelled
    queue := []
    log := w.log ++ farewell w.counts cancelled }

/-- What a worker does at a moment, given whether the signal is raised and whether its queue is
closed: the loop of `run`, which asks for the signal before it asks for a request. -/
def step (now : Nat) (signal closed : Bool) (w : Worker) : Option Worker :=
  match w.activity with
  | .idle => some w.begin
  | .waiting =>
    if signal then some (w.stop true)
    else
      match w.queue with
      | request :: rest => some (w.call now request rest)
      | [] => if closed then some (w.stop false) else none
  | .calling request finish outcome =>
    if finish ≤ now then some (w.conclude request outcome) else none
  | .stopped _ | .crashed _ => none

/-- The moment up to which a worker does nothing. -/
def deadline? (w : Worker) : Option Nat :=
  match w.activity with
  | .calling _ finish _ => some finish
  | _ => none

/-- Whether a worker has given up its queue. -/
def released (w : Worker) : Bool :=
  match w.activity with
  | .stopped _ | .crashed _ => true
  | _ => false

/-- The entry of a record. -/
def Record.entry (index : Nat) (agent : String) : Record → Log.Entry
  | .moved source target =>
    ⟨.debug, "chainfanout_core::worker", "worker state change",
      [Log.text "agent" agent, Log.count "index" index, Log.text "from" source.name,
        Log.text "to" target.name]⟩
  | .answered request verdict =>
    ⟨.info, "chainfanout_core::worker", "agent evaluation result",
      [Log.text "agent" agent, Log.text "request_id" request.id,
        Log.text "tx_hash" request.transactionHash, Log.count "findings" verdict.findings.length,
        Log.measured "elapsed_ms", Log.text "result" verdict.render]⟩
  | .refused request error =>
    ⟨.warn, "chainfanout_core::worker", "error invoking agent",
      [Log.text "agent" agent, Log.text "request_id" request.id,
        Log.text "tx_hash" request.transactionHash, Log.measured "elapsed_ms",
        Log.text "error" error.message]⟩
  | .ended counts cancelled =>
    ⟨.info, "chainfanout_core::worker", "agent worker stopped",
      [Log.text "agent" agent, Log.count "received" counts.received,
        Log.count "succeeded" counts.succeeded, Log.count "failed" counts.failed,
        Log.count "rejected" counts.rejected, Log.count "timed_out" counts.timedOut,
        ("cancelled", .bool cancelled)]⟩

/-- The entries of a worker's log. -/
def entries (w : Worker) : List Log.Entry :=
  w.log.map (·.entry w.index w.agent.address)

theorem step_stopped {w : Worker} {cancelled : Bool} (h : w.activity = .stopped cancelled)
    (now : Nat) (signal closed : Bool) : w.step now signal closed = none := by
  simp [step, h]

theorem step_signal {w : Worker} (h : w.activity = .waiting) (now : Nat) (closed : Bool) :
    w.step now true closed = some (w.stop true) := by
  simp [step, h]

end Worker

end TxRelay
