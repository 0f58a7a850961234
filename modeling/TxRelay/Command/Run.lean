import TxRelay.Command.Arguments
import TxRelay.Command.Outside

/-!
# The run

A run goes through its stages in order: the settings file is read, the arguments replace what it says,
the settings are checked, the addresses are read, the agents are reached, the input is opened, and only
then the relay starts. The first stage that fails ends the run.

Results:
* `run_eq`: a run reports what becomes of the settings that it goes by.
-/

namespace TxRelay.Command.Run

/-! ## Settings -/

/-- The settings file that a path leads to, by what is found there (`load` of the settings file). -/
def decode (path : String) (found : Files.Found) : Except Failure SettingsFile :=
  match found.text with
  | .error reason => .error ⟨s!"read config file '{path}'", [reason]⟩
  | .ok text =>
    match SettingsFile.codec.read text with
    | .ok file => .ok file
    | .error e => .error ⟨s!"parse config file '{path}'", [e.message]⟩

/-- The settings file that a path leads to in a world. -/
def load (w : World) (path : String) : Except Failure SettingsFile :=
  decode path (w.files path)

/-- Settings in which what the arguments say replaces what the file says (`main`). -/
def merge (s : Settings) (options : RunOptions) : Settings where
  agents := if options.agents.isEmpty then s.agents else options.agents
  queueCapacity := options.queueCapacity.getD s.queueCapacity
  callTimeout := options.callTimeout.getD s.callTimeout

/-- Checks settings (`validate`). -/
def check (s : Settings) : Except Failure Unit :=
  match s.validate with
  | .ok () => .ok ()
  | .error e => .error ⟨"invalid configuration", [e.message]⟩

/-- Reads the addresses (`endpoints`). -/
def endpoints (s : Settings) : Except Failure (List Endpoint) :=
  match Startup.endpoints s.agents with
  | .ok es => .ok es
  | .error e => .error ⟨e.message, []⟩

/-! ## The relay of a run -/

/-- The name of the relay in a run, given by `with_name`. -/
def name : String := "chainfanout"

/-- What the feed of a run does: the items of the input, and then nothing if the input stays open. -/
def feed (interrupted : Bool) (numbered : List Feed.Lines.Numbered) : List Feed.Step :=
  numbered.map (·.step) ++ if interrupted then [.quiet] else []

/-- How the relay of a run is set up with its agents. -/
def equip {m : Type → Type} (o : Outside m) (s : Settings) (agents : List Agent)
    (numbered : List Feed.Lines.Numbered) : Relay.Setup where
  name
  capacity := s.queueCapacity.toNat
  limit := s.callTimeout.toNat
  agents
  feed := feed o.interrupted numbered
  ids := o.ids

/-- How the relay of a run is set up in a world. -/
def setup (w : World) (s : Settings) (es : List Endpoint)
    (numbered : List Feed.Lines.Numbered) : Relay.Setup :=
  equip w.outside s (es.map w.agent) numbered

/-- The failure of a relay. -/
def relayFailure (e : RunError) : Failure :=
  match e with
  | .feed error => ((feedFailure error).under e.message).under "dispatch failed"
  | _ => ⟨"dispatch failed", [e.message]⟩

/-- How a run ends with a relay. A relay that was stopped on purpose is no failure. -/
def relayEnding : Except RunError Relay.Summary → Ending
  | .ok _ | .error .cancelled => .success
  | .error e => .failure (relayFailure e)

/-! ## The log of a run -/

/-- What is logged at an interrupt. -/
def interruptEntry : Log.Entry :=
  ⟨.info, "chainfanout::cmd_run", "interrupt received, shutting down", []⟩

/-- The entries of a record of the relay, with what is logged before it elsewhere. -/
def relayEntries (interrupted : Bool) (numbered : List Feed.Lines.Numbered) (r : Relay.Record) :
    List Log.Entry :=
  match r with
  | .cancelled => (if interrupted then [interruptEntry] else []) ++ [r.entry]
  | .feedFailed _ => numbered.filterMap (·.complaint?) ++ [r.entry]
  | _ => [r.entry]

/-- The entries of a worker's records; the `number`-th call is logged as it is sent. -/
def workerEntries (w : Worker) (number : Nat) : List Worker.Record → List Log.Entry
  | [] => []
  | r :: rest =>
    let entry := r.entry w.index w.agent.address
    match r with
    | .answered request _ | .refused request _ =>
      Transport.sendingEntry w.agent.address number request :: entry ::
        workerEntries w (number + 1) rest
    | _ => entry :: workerEntries w number rest

/-- What `run` logs about an agent once the relay has ended well. -/
def totalsEntry (s : Worker.Stats) : Log.Entry :=
  ⟨.info, "chainfanout::cmd_run", "agent totals",
    [Log.text "agent" s.agent, Log.count "succeeded" s.counts.succeeded,
      Log.count "failed" s.counts.failed, Log.count "rejected" s.counts.rejected,
      Log.count "timed_out" s.counts.timedOut]⟩

/-- What is logged after a run. -/
def closingEntries : Except RunError Relay.Summary → List Log.Entry
  | .ok summary => summary.workers.map totalsEntry
  | .error .cancelled => [⟨.info, "chainfanout::cmd_run", "stopped by operator", []⟩]
  | .error _ => []

/-! ## What a relay leaves -/

/-- The calls that a worker's connection sent. -/
def sent (e : Endpoint) (w : Worker) : List (Endpoint × Rpc.Call) :=
  w.calls.mapIdx fun index call => (e, Transport.numberedCall index call.request)

/-- What a relay that has come to its end leaves. -/
def ofState (interrupted : Bool) (es : List Endpoint) (numbered : List Feed.Lines.Numbered)
    (s : Relay.State) (result : Except RunError Relay.Summary) : Outcome where
  output := []
  ending := relayEnding result
  entries :=
    s.log.flatMap (relayEntries interrupted numbered) ++
      s.workers.flatMap (fun worker => workerEntries worker 1 worker.log) ++ closingEntries result
  calls := (es.zip s.workers).flatMap fun (e, worker) => sent e worker

/-- What is logged before a relay makes its queues. -/
def startEntries (setup : Relay.Setup) : List Log.Entry :=
  (Relay.State.start setup false).log.map (·.entry)

/-- What the relay of a run leaves, by what comes of launching it. Without room for the queues the run
breaks down, and has logged no more than that the relay starts. -/
def ofLaunch (interrupted : Bool) (es : List Endpoint) (numbered : List Feed.Lines.Numbered)
    (setup : Relay.Setup) : Except Relay.Refusal Relay.State → Outcome
  | .error .noAgents => .failed (relayFailure .noAgents) []
  | .error .noRoom => ⟨[], .breakdown, startEntries setup, []⟩
  | .ok s =>
    match s.supervisor.result with
    | some result => ofState interrupted es numbered s result
    | none => ⟨[], .breakdown, [], []⟩

/-! ## The stages -/

section Stages

variable {m : Type → Type} [Monad m] (o : Outside m)

/-- Loads the settings file; the default one where none is named. -/
def loadFile (config : Option String) : m (Except Failure SettingsFile) :=
  match config with
  | none => pure (.ok .default)
  | some path => do
    let found ← o.read path
    return decode path found

/-- Launches a relay with agents that are connected, and waits for what it leaves: `run` from the
signal on. -/
def dispatch (s : Settings) (connected : List (Endpoint × Agent))
    (numbered : List Feed.Lines.Numbered) : m Outcome := do
  let setup := equip o s (connected.map Prod.snd) numbered
  let launched ← o.launch setup
  return ofLaunch o.interrupted (connected.map Prod.fst) numbered setup launched

/-- Opens the input for agents that are connected, and dispatches. -/
def serve (s : Settings) (connected : List (Endpoint × Agent)) (input : String) : m Outcome := do
  let entries := connected.map fun c => Transport.connectedEntry c.1
  match ← o.openInput input with
  | .error f => return .failed f entries
  | .ok numbered =>
    let outcome ← dispatch o s connected numbered
    return { outcome with entries := entries ++ outcome.entries }

/-- Goes through the stages with settings that have been merged (`run` of the command). -/
def stages (s : Settings) (input : String) : m Outcome :=
  match check s >>= fun _ => endpoints s with
  | .error f => return .failed f []
  | .ok es => do
    let (connected, fault) ← Startup.connectAll o.connect es
    match fault with
    | some e =>
      return .failed ⟨"agent startup failed", [e.message]⟩
        (connected.map fun c => Transport.connectedEntry c.1)
    | none => serve o s connected input

/-- Carries out a run, with what the command says about the log (`main`). -/
def carryOut (options : RunOptions) (level : Option String) (json : Bool) : m Report := do
  match ← loadFile o options.config with
  | .error f => return (Outcome.failed f []).report (logSettings .default level json)
  | .ok file =>
    let outcome ← stages o (merge file.settings options) options.input
    return outcome.report (logSettings file.log level json)

end Stages

/-- The settings file of a run in a world. -/
def settingsFile (w : World) (options : RunOptions) : Except Failure SettingsFile :=
  Id.run (loadFile w.outside options.config)

/-- A run in a world with settings that have been merged. -/
def withSettings (w : World) (s : Settings) (input : String) : Outcome :=
  Id.run (stages w.outside s input)

/-- A run in a world. -/
def run (w : World) (options : RunOptions) (level : Option String) (json : Bool) : Report :=
  Id.run (carryOut w.outside options level json)

theorem run_eq (w : World) (options : RunOptions) (level : Option String) (json : Bool) :
    run w options level json =
      match settingsFile w options with
      | .error f => (Outcome.failed f []).report (logSettings .default level json)
      | .ok file =>
        (withSettings w (merge file.settings options) options.input).report
          (logSettings file.log level json) := by
  rw [run, carryOut, settingsFile]
  cases loadFile w.outside options.config <;> rfl

end TxRelay.Command.Run
