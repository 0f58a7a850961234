import TxRelay.Feed.Basic
import TxRelay.Worker.Basic

/-!
# The relay

A relay (`Dispatcher`) reads a feed and hands every message to all of its agents. Ingestion (`ingest`)
takes the items one by one, tags each message as a request and puts the request on the queue of every
worker in turn; a full queue makes it wait. The supervisor (`run`) hears of every task that has ended,
and raises the shutdown signal at the first error.

This module holds what the relay is made of; what it does is said in the module on steps.

Results:
* `start_workers`: a relay starts with one worker an agent.
-/

namespace TxRelay

open Json (Codec)

/-- Why a run of the relay did not end well (`DispatchError`). -/
inductive RunError where
  | feed (error : FeedError)
  | cancelled
  | queueClosed (agent : String)
  | taskFailed (reason : String)
  | noAgents
  deriving DecidableEq, Repr

/-- The text of an error. -/
def RunError.message : RunError → String
  | feed error => s!"Event source failed: {error.message}"
  | cancelled => "Dispatch cancelled"
  | queueClosed agent => s!"Queue for agent '{agent}' closed unexpectedly"
  | taskFailed reason => s!"Task failed: {reason}"
  | noAgents => "No agents configured"

/-- Whether a run was stopped on purpose (`is_cancelled`). -/
def RunError.isCancelled : RunError → Bool
  | cancelled => true
  | _ => false

namespace Relay

/-- What ingestion has counted (`IngestStats`): the items taken, those that have no message, and the
requests put on queues. -/
structure Totals where
  received : Nat
  unconverted : Nat
  dispatched : Nat
  deriving DecidableEq, Repr

/-- What a run that ended well reports (`DispatchSummary`). -/
structure Summary where
  totals : Totals
  /-- The counts of the workers, in the order of their agents. -/
  workers : List Worker.Stats
  deriving DecidableEq, Repr

/-- The codec of summaries. -/
def Summary.codec : Codec Summary :=
  .record "DispatchSummary"
    (.cons (.required "events_received" (.natural "u64")) <|
      .cons (.required "translate_errors" (.natural "u64")) <|
      .cons (.required "requests_dispatched" (.natural "u64")) <|
      .cons (.required "workers" (.list Worker.Stats.codec)) .nil)
    (fun (received, unconverted, dispatched, workers, _) =>
      ⟨⟨received, unconverted, dispatched⟩, workers⟩)
    (fun s =>
      (s.totals.received, s.totals.unconverted, s.totals.dispatched, s.workers, ()))

/-- What ingestion is about: the places at which `ingest` may wait. -/
inductive Activity where
  /-- It is ready for the next item. -/
  | pulling
  /-- The feed pauses until a moment. -/
  | pausing (finish : Nat)
  /-- It puts a request on the queues, from the `next`-th on. -/
  | placing (request : Request) (next : Nat)
  | ended
  deriving DecidableEq, Repr

/-- The task that reads the feed. -/
structure Ingestion where
  activity : Activity
  /-- What the feed will still do. -/
  feed : List Feed.Step
  totals : Totals
  /-- The requests tagged so far. -/
  tagged : List Request
  deriving DecidableEq, Repr

/-- The end of a task (`TaskOutcome`). -/
inductive TaskEnd where
  | ingestion (result : Except RunError Totals)
  | worker (index : Nat) (result : Except RunError Worker.Stats)

/-- The task that waits for the others: what `run` keeps while it joins them. -/
structure Supervisor where
  /-- How many tasks it has heard of. -/
  joined : Nat
  /-- The first error it heard of. -/
  error : Option RunError
  totals : Totals
  workers : List (Option Worker.Stats)
  result : Option (Except RunError Summary)

/-- What the relay logs, apart from its workers. -/
inductive Record where
  | starting (name : String) (agents capacity limit : Nat)
  | dispatching (request : Request)
  | unconverted (error : ConversionError)
  | exhausted (received errors : Nat)
  | feedFailed (error : FeedError)
  | cancelled
  | failed (error : RunError)
  /-- One more error after the first. -/
  | further (error : RunError)
  | stopped (name : String) (error : RunError)
  | finished (name : String) (totals : Totals)
  deriving DecidableEq, Repr

/-- How a relay is set up: the `DispatchConfig`, the name given by `with_name`, the agents and the
feed. -/
structure Setup where
  name : String
  /-- How many requests may wait on a queue. -/
  capacity : Nat
  /-- How long a call may take, in milliseconds. -/
  limit : Nat
  agents : List Agent
  feed : List Feed.Step
  /-- The identifiers of requests, none of them twice. -/
  ids : Nat → String

/-- The name of a relay that is given none. -/
def defaultName : String := "fanout"

/-- The room on a queue: `run` sees to it that there is room for one request at least. -/
def Setup.room (setup : Setup) : Nat :=
  max setup.capacity 1

/-- A relay at work. -/
structure State where
  setup : Setup
  now : Nat
  /-- Whether the shutdown signal is raised. -/
  signal : Bool
  ingestion : Ingestion
  workers : List Worker
  /-- The tasks that have ended and that the supervisor has not heard of, in the order of their
  ends. -/
  ends : List TaskEnd
  supervisor : Supervisor
  log : List Record

/-- A supervisor that has heard of nothing. -/
def Supervisor.fresh (workers : Nat) : Supervisor :=
  ⟨0, none, ⟨0, 0, 0⟩, List.replicate workers none, none⟩

/-- The workers of agents. -/
def freshWorkers (limit : Nat) (agents : List Agent) : List Worker :=
  agents.mapIdx fun index agent => .fresh index agent limit []

/-- A relay as `run` starts it: every task is there, and none has taken a step. -/
def State.start (setup : Setup) (signal : Bool) : State where
  setup
  now := 0
  signal
  ingestion := ⟨.pulling, setup.feed, ⟨0, 0, 0⟩, []⟩
  workers := freshWorkers setup.limit setup.agents
  ends := []
  supervisor := .fresh setup.agents.length
  log := [.starting setup.name setup.agents.length setup.room setup.limit]

/-- The entry of a record. -/
def Record.entry : Record → Log.Entry
  | starting name agents capacity limit =>
    ⟨.info, "chainfanout_core::dispatcher", "dispatcher starting",
      [Log.text "dispatcher" name, Log.count "agents" agents, Log.count "queue_capacity" capacity,
        Log.count "call_timeout_ms" limit]⟩
  | dispatching request =>
    ⟨.debug, "chainfanout_core::dispatcher", "dispatching request",
      [Log.text "request_id" request.id, Log.text "tx_hash" request.transactionHash]⟩
  | unconverted error =>
    ⟨.warn, "chainfanout_core::dispatcher", "error converting tx event to message",
      [Log.text "error" error.message]⟩
  | exhausted received errors =>
    ⟨.info, "chainfanout_core::dispatcher", "event source exhausted, closing agent queues",
      [Log.count "events" received, Log.count "translate_errors" errors]⟩
  | feedFailed error =>
    ⟨.error, "chainfanout_core::dispatcher", "event source failed",
      [Log.text "error" error.message]⟩
  | cancelled =>
    ⟨.info, "chainfanout_core::dispatcher", "dispatch cancelled, stopping all tasks", []⟩
  | failed error =>
    ⟨.error, "chainfanout_core::dispatcher", "dispatch failed, stopping all tasks",
      [Log.text "error" error.message]⟩
  | further error =>
    ⟨.debug, "chainfanout_core::dispatcher", "additional task error after first failure",
      [Log.text "error" error.message]⟩
  | stopped name error =>
    ⟨.info, "chainfanout_core::dispatcher", "dispatcher stopped",
      [Log.text "dispatcher" name, Log.text "error" error.message]⟩
  | finished name totals =>
    ⟨.info, "chainfanout_core::dispatcher", "dispatcher finished",
      [Log.text "dispatcher" name, Log.count "events" totals.received,
        Log.count "translate_errors" totals.unconverted,
        Log.count "dispatched" totals.dispatched]⟩

theorem start_workers (setup : Setup) (signal : Bool) :
    (State.start setup signal).workers.length = setup.agents.length := by
  simp [State.start, freshWorkers]

end Relay

end TxRelay
