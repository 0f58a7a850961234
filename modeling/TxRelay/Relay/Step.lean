import TxRelay.Relay.Basic

/-!
# Steps of the relay

A step is one thing that one task does at one moment; none means that the task can only wait or has
ended. The tasks are ingestion (`ingest`), the workers and the supervisor (`run` of the dispatcher).
Ingestion looks at the shutdown signal before it takes an item, while the feed pauses and before it
puts a request on a queue.

Results:
* `stepWorker_eq`: a step of a worker is a step of that worker alone, whose end, if it has ended by it,
  is put before the supervisor.
-/

namespace TxRelay.Relay

/-- A task of the relay. -/
inductive Task where
  | ingestion
  | worker (index : Nat)
  | supervisor
  deriving DecidableEq, Repr

namespace State

/-- Adds a record. -/
def record (s : State) (r : Record) : State :=
  { s with log := s.log ++ [r] }

/-! ## Ingestion -/

/-- Ingestion ends, and with it every queue is closed: `ingest` drops the queues as it returns. -/
def endIngestion (s : State) (result : Except RunError Totals) : State :=
  { s with
    ingestion := { s.ingestion with activity := .ended }
    ends := s.ends ++ [.ingestion result] }

/-- Ingestion goes on to an activity with what is left of the feed. -/
def goOn (s : State) (activity : Activity) (feed : List Feed.Step) : State :=
  { s with ingestion := { s.ingestion with activity, feed } }

/-- Counts an item that has no message. -/
def skip (s : State) (error : ConversionError) : State :=
  let totals := s.ingestion.totals
  { s with
    ingestion.totals :=
      { totals with received := totals.received + 1, unconverted := totals.unconverted + 1 } }
    |>.record (.unconverted error)

/-- Tags a message (`tag`), and the request is then to be put on every queue. -/
def tag (s : State) (message : Message) : State :=
  let request := Request.tag s.setup.ids s.ingestion.tagged.length message
  let totals := s.ingestion.totals
  { s with
    ingestion :=
      { s.ingestion with
        activity := .placing request 0
        totals := { totals with received := totals.received + 1 }
        tagged := s.ingestion.tagged ++ [request] } }
    |>.record (.dispatching request)

/-- Takes an item (`to_message`). One without a message is counted and passed over. -/
def take (s : State) (item : Feed.Item) (rest : List Feed.Step) : State :=
  let s := s.goOn .pulling rest
  match item.toMessage with
  | .error error => s.skip error
  | .ok message => s.tag message

/-- Asks the feed for the next item, which `ingest` does at the head of its loop. -/
def pull (s : State) : Option State :=
  match s.ingestion.feed with
  | [] =>
    let totals := s.ingestion.totals
    some ((s.record (.exhausted totals.received totals.unconverted)).endIngestion (.ok totals))
  | .item item :: rest => some (s.take item rest)
  | .pause duration :: rest => some (s.goOn (.pausing (s.now + duration)) rest)
  | .fail error :: rest =>
    some (((s.goOn .pulling rest).record (.feedFailed error)).endIngestion (.error (.feed error)))
  | .quiet :: _ => none

/-- Puts a request on the queue of a worker. -/
def push (s : State) (request : Request) (index : Nat) (w : Worker) : State :=
  let totals := s.ingestion.totals
  { s with
    workers := s.workers.set index { w with queue := w.queue ++ [request] }
    ingestion :=
      { s.ingestion with
        activity := .placing request (index + 1)
        totals := { totals with dispatched := totals.dispatched + 1 } } }

/-- Puts a request on the next queue, once there is room (`send`); a queue that its worker has given up
ends ingestion. -/
def place (s : State) (request : Request) (index : Nat) (w : Worker) : Option State :=
  if w.released then some (s.endIngestion (.error (.queueClosed w.agent.address)))
  else if w.queue.length < s.setup.room then some (s.push request index w)
  else none

/-- A step of ingestion: `ingest` from one wait to the next. The signal comes before whatever else is
waited for. -/
def stepIngestion (s : State) : Option State :=
  match s.ingestion.activity with
  | .pulling => if s.signal then some (s.endIngestion (.error .cancelled)) else s.pull
  | .pausing finish =>
    if s.signal then some (s.endIngestion (.error .cancelled))
    else if finish ≤ s.now then some (s.goOn .pulling s.ingestion.feed)
    else none
  | .placing request index =>
    match s.workers[index]? with
    | none => some (s.goOn .pulling s.ingestion.feed)
    | some w =>
      if s.signal then some (s.endIngestion (.error .cancelled)) else s.place request index w
  | .ended => none

/-! ## Workers -/

/-- Whether the queues are closed. -/
def closed (s : State) : Bool :=
  s.ingestion.activity = .ended

end State

/-- How a worker has ended: the result of its `run`, or how its task failed. -/
def workerEnd? (w : Worker) : Option (Except RunError Worker.Stats) :=
  match w.activity with
  | .stopped false => some (.ok w.stats)
  | .stopped true => some (.error .cancelled)
  | .crashed reason => some (.error (.taskFailed reason))
  | _ => none

/-- The end of a worker, if it has ended. -/
def workerEnds (index : Nat) (w : Worker) : List TaskEnd :=
  match workerEnd? w with
  | some result => [.worker index result]
  | none => []

namespace State

/-- A worker becomes what a step of it made of it. -/
def setWorker (s : State) (index : Nat) (w : Worker) : State :=
  { s with workers := s.workers.set index w, ends := s.ends ++ workerEnds index w }

/-- A step of a worker. -/
def stepWorker (s : State) (index : Nat) : Option State := do
  let w ← s.workers[index]?
  let next ← w.step s.now s.signal s.closed
  return s.setWorker index next

/-! ## The supervisor -/

/-- The supervisor hears of an error (`record`): the first raises the signal. -/
def hear (s : State) (error : RunError) : State :=
  match s.supervisor.error with
  | some _ => s.record (.further error)
  | none =>
    { s with signal := true, supervisor.error := some error }
      |>.record (if error.isCancelled then .cancelled else .failed error)

/-- The supervisor hears of the end of a task, as of one more that `join_next` yields. -/
def join (s : State) : TaskEnd → State
  | .ingestion (.ok totals) => { s with supervisor.totals := totals }
  | .worker index (.ok stats) =>
    { s with supervisor.workers := s.supervisor.workers.set index (some stats) }
  | .ingestion (.error error) | .worker _ (.error error) => s.hear error

/-- The supervisor has heard of every task: `run` raises the signal in any case and returns. -/
def conclude (s : State) : State :=
  let s := { s with signal := true }
  match s.supervisor.error with
  | some error =>
    { s with supervisor.result := some (.error error) }.record (.stopped s.setup.name error)
  | none =>
    let totals := s.supervisor.totals
    { s with supervisor.result := some (.ok ⟨totals, s.supervisor.workers.filterMap id⟩) }.record
      (.finished s.setup.name totals)

/-- The number of tasks that the supervisor waits for. -/
def taskCount (s : State) : Nat :=
  s.workers.length + 1

/-- A step of the supervisor. -/
def stepSupervisor (s : State) : Option State :=
  match s.supervisor.result with
  | some _ => none
  | none =>
    match s.ends with
    | e :: rest =>
      some ({ s with ends := rest, supervisor.joined := s.supervisor.joined + 1 }.join e)
    | [] => if s.supervisor.joined = s.taskCount then some s.conclude else none

/-- A step of a task. -/
def step (s : State) : Task → Option State
  | .ingestion => s.stepIngestion
  | .worker index => s.stepWorker index
  | .supervisor => s.stepSupervisor

theorem stepWorker_eq {s t : State} {index : Nat} (h : s.stepWorker index = some t) :
    ∃ w next, s.workers[index]? = some w ∧ w.step s.now s.signal s.closed = some next ∧
      t = s.setWorker index next := by
  simp only [stepWorker, Option.bind_eq_bind, Option.bind_eq_some_iff] at h
  obtain ⟨w, hw, next, hn, ht⟩ := h
  exact ⟨w, next, hw, hn, (Option.some.inj ht).symm⟩

end State

end TxRelay.Relay
