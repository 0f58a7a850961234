import TxRelay.Command.Failure
import TxRelay.Feed.Lines
import TxRelay.Files
import TxRelay.Log.Filter
import TxRelay.Settings.File
import TxRelay.Transport

/-!
# What a command works with

A command sees the world only through the files it reads, what is typed in, the endpoints it reaches
and the answers it gets. What it leaves is a report: an exit code, the lines it printed, a failure, and
the log.
-/

namespace TxRelay.Command

/-- The world of a command. -/
structure World where
  files : String → Files.Found
  input : List UInt8
  /-- The environment's list of agents. -/
  agents : Option String
  /-- Why an endpoint cannot be reached, if so. -/
  probe : Endpoint → Except String Unit
  /-- What comes back from the `index`-th call to an endpoint, and when. -/
  exchange : Endpoint → Nat → Rpc.Call → Transport.Arrival
  /-- The identifiers of requests, none of them twice. -/
  ids : Nat → String
  /-- Whether the input stays open until an interrupt comes, which it does as soon as time passes. -/
  interrupted : Bool

/-- How a command ends. -/
inductive Ending where
  | success
  | failure (f : Failure)
  /-- The command breaks down without a word. -/
  | breakdown
  deriving DecidableEq, Repr

/-- The exit code of an ending. -/
def Ending.code : Ending → Nat
  | success => 0
  | failure _ => 1
  | breakdown => 101

/-- The failure of an ending, if it is one. -/
def Ending.failure? : Ending → Option Failure
  | failure f => some f
  | _ => none

/-- What a command leaves. -/
structure Report where
  code : Nat
  output : List String
  failure : Option Failure
  /-- Whether the log is written as JSON. -/
  json : Bool
  log : List Log.Entry
  /-- The calls that were sent. -/
  calls : List (Endpoint × Rpc.Call)

/-- The lines of the log. -/
def Report.logLines (r : Report) : List String :=
  r.log.map fun e => if r.json then e.jsonLine else e.plainLine

/-- What a command leaves, its log not yet filtered. -/
structure Outcome where
  output : List String
  ending : Ending
  entries : List Log.Entry
  calls : List (Endpoint × Rpc.Call)

/-- The report of a command that logs by some settings. -/
def Outcome.report (o : Outcome) (log : LogSettings) : Report where
  code := o.ending.code
  output := o.output
  failure := o.ending.failure?
  json := log.json
  log := o.entries.filter (Log.Filter.read log.directives).allows
  calls := o.calls

/-- A command that fails with nothing done. -/
def Outcome.failed (f : Failure) (entries : List Log.Entry) : Outcome :=
  ⟨[], .failure f, entries, []⟩

/-- The size of the chunks in which an input is read. -/
def chunkSize : Nat := 8192

/-- Opens an input (`open`): what is typed in, or a file. A file that is a directory fails when it is
read. -/
def World.open (w : World) (input : String) : Except Failure (List Feed.Lines.Numbered) :=
  if input = "-" then .ok (Feed.Lines.read .plain chunkSize w.input)
  else
    match w.files input with
    | .refused reason => .error ⟨s!"open input '{input}'", [reason]⟩
    | .directory => .ok [⟨1, .error (.io Files.directoryReason)⟩]
    | .bytes content => .ok (Feed.Lines.read .detailed chunkSize content)

/-- The failure of a feed. -/
def feedFailure (e : FeedError) : Failure :=
  match e with
  | .io reason => ⟨e.message, [reason]⟩
  | _ => ⟨e.message, []⟩

/-- The log settings of a command (`log_config`): those of the file where the command says nothing
else. -/
def logSettings (base : LogSettings) (level : Option String) (json : Bool) : LogSettings :=
  { base with level := level.getD base.level, json := json || base.json }

end TxRelay.Command
