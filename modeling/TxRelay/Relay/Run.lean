import TxRelay.Relay.Step
import TxRelay.Worker.Run

/-!
# Runs of the relay

A run lets the tasks step as long as one can: ingestion first, then the workers in their order, then
the supervisor. When none can, time passes at once up to the next moment at which something happens.
The run ends when the supervisor has a result. It is bounded by the work that is left, which every step
makes less.

Results:
* `launch_noAgents`: a relay without agents is not started.
-/

namespace TxRelay.Relay

/-- Why a relay is not started: `run` returns an error, or breaks down over the queues. -/
inductive Refusal where
  | noAgents
  /-- No queue has that much room. -/
  | noRoom
  deriving DecidableEq, Repr

/-- The greatest room that a queue can have: an eighth of what a word can count. -/
def greatestRoom : Nat := (Nat.pow 2 64 - 1) / 8

/-- Starts a relay (`run` of the dispatcher, up to the tasks it spawns). -/
def launch (setup : Setup) (signal : Bool) : Except Refusal State :=
  if setup.agents.isEmpty then .error .noAgents
  else if greatestRoom < setup.room then .error .noRoom
  else .ok (.start setup signal)

/-! ## Work -/

/-- The steps that a step of a feed gives rise to among so many workers. -/
def feedWork (workers : Nat) : Feed.Step → Nat
  | .item _ => 3 * workers + 2
  | .pause _ => 2
  | .fail _ | .quiet => 1

/-- The steps that an activity of ingestion still takes, the feed apart. -/
def Activity.work (workers : Nat) : Activity → Nat
  | pulling => 1
  | pausing _ => 2
  | placing _ next => 3 * (workers - next) + 2
  | ended => 0

/-- The steps that ingestion may still take. -/
def Ingestion.work (workers : Nat) (i : Ingestion) : Nat :=
  i.activity.work workers + i.feed.foldr (fun step n => feedWork workers step + n) 0

/-- The steps that a supervisor of so many tasks may still take. -/
def Supervisor.work (tasks : Nat) (s : Supervisor) : Nat :=
  (tasks - s.joined) + (if s.result.isSome then 0 else 1)

namespace State

/-- The steps that a relay may still take. -/
def work (s : State) : Nat :=
  s.ingestion.work s.workers.length + s.workers.foldr (fun w n => w.work + n) 0 +
    s.supervisor.work s.taskCount

/-! ## Time -/

/-- The moment up to which the feed pauses. -/
def feedDeadline? (s : State) : Option Nat :=
  match s.ingestion.activity with
  | .pausing finish => some finish
  | _ => none

/-- The next moment at which something happens. -/
def nextMoment? (s : State) (signalAt : Option Nat) : Option Nat :=
  nextMoment s.now (signalAt :: s.feedDeadline? :: s.workers.map Worker.deadline?)

/-- Lets time pass up to a moment, at which the signal may be raised from outside. -/
def passTo (s : State) (signalAt : Option Nat) (moment : Nat) : State :=
  { s with now := moment, signal := s.signal || Worker.raisedBy signalAt moment }

/-! ## Runs -/

/-- The tasks, in the order in which they are tried. -/
def tasks (s : State) : List Task :=
  .ingestion :: (List.range s.workers.length).map .worker ++ [.supervisor]

/-- The step of the first task that can take one. -/
def move? (s : State) : Option State :=
  s.tasks.findSome? s.step

/-- Runs a relay for a bounded number of steps. -/
def runFrom (signalAt : Option Nat) : Nat → State → State
  | 0, s => s
  | fuel + 1, s =>
    match s.move? with
    | some next => runFrom signalAt fuel next
    | none =>
      if s.supervisor.result.isSome then s
      else
        match s.nextMoment? signalAt with
        | some moment => runFrom signalAt fuel (s.passTo signalAt moment)
        | none => s

/-- Runs a relay up to its end, or until nothing can happen any more. -/
def run (s : State) (signalAt : Option Nat) : State :=
  s.runFrom signalAt (2 * s.work + 3)

end State

theorem launch_noAgents {setup : Setup} (h : setup.agents = []) (signal : Bool) :
    launch setup signal = .error .noAgents := by
  simp [launch, h]

end TxRelay.Relay
