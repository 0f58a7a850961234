import TxRelay.Proofs.Command.Stages

/-!
# All or nothing

Before a run dispatches anything it goes through five stages, and each of them may fail, at more
than one place. The first that fails decides: the run fails as that stage says, and of what comes
later in the order of the stages nothing is done. If none fails, one relay is launched, with one
agent for each address.

Results:
* `fails_or_starts`: either a stage is the first to fail, or the relay is given its agents.
* `Fails.does`, `Starts.does`: what a run does to the world in either case, and reports.
* `startup_all_or_nothing`: all of this, of every command line that asks for a run.
-/

namespace TxRelay.Command.Run

/-! ## What may happen -/

/-- The settings file that a run goes by. -/
inductive Loads (w : World) (options : RunOptions) : SettingsFile → Prop
  | default (config : options.config = none) : Loads w options .default
  | file {path text file} (config : options.config = some path)
      (found : (w.files path).text = .ok text) (good : SettingsFile.codec.read text = .ok file) :
    Loads w options file

/-- The settings file is read if there is one. -/
def reads (options : RunOptions) : List Deed :=
  options.config.toList.map .read

/-- The settings are merged and good. -/
structure Settled (w : World) (options : RunOptions) (s : Settings) : Prop where
  merged : ∃ file, Loads w options file ∧ merge file.settings options = s
  valid : s.validate = .ok ()

/-- All addresses are those of endpoints. -/
structure Parsed (w : World) (options : RunOptions) (s : Settings) (es : List Endpoint) : Prop
    extends Settled w options s where
  addresses : List.Forall₂ (fun address e => Endpoint.parse address = .ok e) s.agents es

/-- All agents are reached. -/
structure Connected (w : World) (options : RunOptions) (s : Settings) (es : List Endpoint) : Prop
    extends Parsed w options s es where
  reachable : ∀ e ∈ es, w.probe e = .ok ()

/-- A stage is the first to fail: how the run fails, which agents were reached before, and what was
done. -/
inductive Fails (w : World) (options : RunOptions) : Failure → List Endpoint → List Deed → Prop
  | unreadable {path reason} (config : options.config = some path)
      (bad : (w.files path).text = .error reason) :
    Fails w options ⟨s!"read config file '{path}'", [reason]⟩ [] [.read path]
  | undecodable {path text e} (config : options.config = some path)
      (found : (w.files path).text = .ok text) (bad : SettingsFile.codec.read text = .error e) :
    Fails w options ⟨s!"parse config file '{path}'", [e.message]⟩ [] [.read path]
  | invalid {file e} (loads : Loads w options file)
      (bad : (merge file.settings options).validate = .error e) :
    Fails w options ⟨"invalid configuration", [e.message]⟩ [] (reads options)
  | address {s before address after fault} (settles : Settled w options s)
      (agents : s.agents = before ++ address :: after)
      (good : ∀ a ∈ before, ∃ e, Endpoint.parse a = .ok e)
      (bad : Endpoint.parse address = .error fault) :
    Fails w options ⟨(StartupError.address address fault.message).message, []⟩ [] (reads options)
  | unreachable {s before e after reason} (parses : Parsed w options s (before ++ e :: after))
      (good : ∀ b ∈ before, w.probe b = .ok ()) (bad : w.probe e = .error reason) :
    Fails w options ⟨"agent startup failed", [(StartupError.connect e.url reason).message]⟩ before
      (reads options ++ (before ++ [e]).map .connect)
  | input {s es reason} (connects : Connected w options s es) (named : options.input ≠ "-")
      (bad : w.files options.input = .refused reason) :
    Fails w options ⟨s!"open input '{options.input}'", [reason]⟩ es
      (reads options ++ es.map .connect ++ [.openInput options.input])

/-- Every stage succeeds, and a relay is set up. -/
structure Starts (w : World) (options : RunOptions) (s : Settings) (es : List Endpoint)
    (numbered : List Feed.Lines.Numbered) : Prop extends Connected w options s es where
  opened : w.open options.input = .ok numbered

section Stages

variable {w : World} {options : RunOptions} {s : Settings} {es : List Endpoint}
  {numbered : List Feed.Lines.Numbered} {f : Failure} {connected : List Endpoint}
  {deeds : List Deed}

theorem loads_or_fails (w : World) (options : RunOptions) :
    (∃ file, Loads w options file) ∨ ∃ f deeds, Fails w options f [] deeds := by
  cases config : options.config with
  | none => exact .inl ⟨_, .default config⟩
  | some path =>
    cases found : (w.files path).text with
    | error reason => exact .inr ⟨_, _, .unreadable config found⟩
    | ok text =>
      cases decoded : SettingsFile.codec.read text with
      | error e => exact .inr ⟨_, _, .undecodable config found decoded⟩
      | ok file => exact .inl ⟨file, .file config found decoded⟩

theorem Settled.parses_or_fails (settles : Settled w options s) :
    (∃ es, Parsed w options s es) ∨ ∃ f deeds, Fails w options f [] deeds := by
  cases addresses : Startup.endpoints s.agents with
  | ok es =>
    refine .inl ⟨es, settles, ?_⟩
    exact (Except.mapM_eq_ok_iff.1 addresses).imp fun _ _ => Startup.endpoint_eq_ok_iff.1
  | error e =>
    obtain ⟨before, address, after, agents, good, bad⟩ := Except.mapM_eq_error_iff.1 addresses
    rw [Startup.endpoint] at bad
    cases parsed : Endpoint.parse address with
    | ok e =>
      rw [parsed] at bad
      cases bad
    | error fault =>
      refine .inr ⟨_, _, .address settles agents ?_ parsed⟩
      intro a mem
      obtain ⟨e, good⟩ := good a mem
      exact ⟨e, Startup.endpoint_eq_ok_iff.1 good⟩

theorem Parsed.connects_or_fails (parses : Parsed w options s es) :
    Connected w options s es ∨ ∃ f connected deeds, Fails w options f connected deeds := by
  cases reached : es.mapM w.probe with
  | ok =>
    have each : List.Forall₂ (fun e _ => w.probe e = .ok () ∧ True) es _ :=
      (Except.mapM_eq_ok_iff.1 reached).imp fun _ _ reachable => ⟨reachable, trivial⟩
    exact .inl ⟨parses, ((List.forall₂_and_left _ _).1 each).1⟩
  | error reason =>
    obtain ⟨before, e, after, rfl, good, bad⟩ := Except.mapM_eq_error_iff.1 reached
    exact .inr ⟨_, _, _, .unreachable parses (fun b mem => (good b mem).choose_spec) bad⟩

theorem Connected.starts_or_fails (connects : Connected w options s es) :
    (∃ numbered, Starts w options s es numbered) ∨
      ∃ f connected deeds, Fails w options f connected deeds := by
  by_cases typed : options.input = "-"
  case pos => exact .inl ⟨_, connects, by rw [World.open, if_pos typed]⟩
  case neg =>
    cases found : w.files options.input with
    | refused reason => exact .inr ⟨_, _, _, .input connects typed found⟩
    | directory | bytes => exact .inl ⟨_, connects, by rw [World.open, if_neg typed, found]⟩

/-- Either a stage is the first to fail, or none does. -/
theorem fails_or_starts (w : World) (options : RunOptions) :
    (∃ f connected deeds, Fails w options f connected deeds) ∨
      ∃ s es numbered, Starts w options s es numbered := by
  rcases loads_or_fails w options with ⟨file, loads⟩ | ⟨f, deeds, fails⟩
  case inr => exact .inl ⟨f, [], deeds, fails⟩
  cases valid : (merge file.settings options).validate with
  | error e => exact .inl ⟨_, _, _, .invalid loads valid⟩
  | ok =>
    have settles : Settled w options _ := ⟨⟨file, loads, rfl⟩, valid⟩
    rcases settles.parses_or_fails with ⟨es, parses⟩ | ⟨f, deeds, fails⟩
    case inr => exact .inl ⟨f, [], deeds, fails⟩
    rcases parses.connects_or_fails with connects | fails
    case inr => exact .inl fails
    rcases connects.starts_or_fails with ⟨numbered, starts⟩ | fails
    case inr => exact .inl fails
    exact .inr ⟨_, es, numbered, starts⟩

end Stages

/-! ## What is done -/

section Deeds

variable {w : World} {options : RunOptions} {s : Settings} {es : List Endpoint}
  {numbered : List Feed.Lines.Numbered} {f : Failure} {connected : List Endpoint}
  {file : SettingsFile} {deeds : List Deed}

theorem checks_of_invalid {e : SettingsError} (bad : s.validate = .error e) :
    (check s >>= fun _ => endpoints s) = .error ⟨"invalid configuration", [e.message]⟩ := by
  rw [check, bad]
  rfl

theorem Settled.checks (settles : Settled w options s) {e : StartupError}
    (bad : Startup.endpoints s.agents = .error e) :
    (check s >>= fun _ => endpoints s) = .error ⟨e.message, []⟩ := by
  rw [check, settles.valid, endpoints, bad]
  rfl

theorem Parsed.endpoints_eq (parses : Parsed w options s es) :
    Startup.endpoints s.agents = .ok es :=
  Except.mapM_eq_ok_iff.2 (parses.addresses.imp fun _ _ => Startup.endpoint_eq_ok_iff.2)

theorem Parsed.checked (parses : Parsed w options s es) :
    (check s >>= fun _ => endpoints s) = .ok es :=
  check_endpoints parses.valid parses.endpoints_eq

theorem Loads.does (loads : Loads w options file) :
    Does (loadFile w.outside.recorded options.config) (.ok file) (reads options) := by
  cases loads with
  | default config =>
    rw [reads, config]
    exact does_pure _
  | @file path text file config found good =>
    have decoded : decode path (w.files path) = .ok file := by
      simp only [decode, found, good]
    rw [reads, config, loadFile, ← decoded]
    exact (does_note (.read path) (w.outside.read path)).bind_pure _

/-- A run that goes by a settings file reports what becomes of its settings. -/
theorem Loads.run_eq (loads : Loads w options file) (level : Option String) (json : Bool) :
    run w options level json =
      (withSettings w (merge file.settings options) options.input).report
        (logSettings file.log level json) := by
  have found : settingsFile w options = .ok file :=
    (agrees_loadFile w.outside options.config).run_eq loads.does
  rw [Run.run_eq, found]

/-- A run that goes by a settings file does what its stages do. -/
theorem Loads.does_carryOut (loads : Loads w options file) {outcome : Outcome}
    (does : Does (stages w.outside.recorded (merge file.settings options) options.input) outcome
      deeds) (level : Option String) (json : Bool) :
    Does (carryOut w.outside.recorded options level json)
      (outcome.report (logSettings file.log level json)) (reads options ++ deeds) :=
  loads.does.bind (does.bind_pure _)

/-- A run that cannot load its settings file does nothing more. -/
theorem does_carryOut_of_load {path : String} (config : options.config = some path)
    (bad : decode path (w.files path) = .error f) (level : Option String) (json : Bool) :
    Does (carryOut w.outside.recorded options level json)
      ((Outcome.failed f []).report (logSettings .default level json)) [.read path] := by
  have loads : Does (loadFile w.outside.recorded options.config) (.error f) [.read path] := by
    rw [config, loadFile, ← bad]
    exact (does_note (.read path) (w.outside.read path)).bind_pure _
  exact loads.bind (does_pure _)

/-- A run in which a stage fails reports that failure and has done what comes before it. -/
theorem Fails.does (fails : Fails w options f connected deeds) (level : Option String)
    (json : Bool) :
    ∃ log, Does (carryOut w.outside.recorded options level json)
      ((Outcome.failed f (connected.map Transport.connectedEntry)).report log) deeds := by
  cases fails with
  | unreadable config bad =>
    exact ⟨_, does_carryOut_of_load config (by simp only [decode, bad]) level json⟩
  | undecodable config found bad =>
    exact ⟨_, does_carryOut_of_load config (by simp only [decode, found, bad]) level json⟩
  | invalid loads bad =>
    have does := loads.does_carryOut (does_stages_of_error (checks_of_invalid bad)) level json
    rw [List.append_nil] at does
    exact ⟨_, does⟩
  | @address s before address after fault settles agents good bad =>
    obtain ⟨file, loads, rfl⟩ := settles.merged
    have fails : Startup.endpoints (merge file.settings options).agents =
        .error (.address address fault.message) := by
      refine Except.mapM_eq_error_iff.2 ⟨before, address, after, agents, ?_, ?_⟩
      · intro a mem
        obtain ⟨e, good⟩ := good a mem
        exact ⟨e, Startup.endpoint_eq_ok_iff.2 good⟩
      · rw [Startup.endpoint, bad]
    have does := loads.does_carryOut (does_stages_of_error (settles.checks fails)) level json
    rw [List.append_nil] at does
    exact ⟨_, does⟩
  | unreachable parses good bad =>
    obtain ⟨file, loads, rfl⟩ := parses.merged
    exact ⟨_, loads.does_carryOut (does_stages_of_unreachable parses.checked good bad) level json⟩
  | @input s es reason connects named bad =>
    obtain ⟨file, loads, rfl⟩ := connects.merged
    have refused : w.open options.input = .error ⟨s!"open input '{options.input}'", [reason]⟩ := by
      rw [World.open, if_neg named, bad]
    have does := does_stages_of_refused connects.toParsed.checked connects.reachable refused
    rw [List.append_assoc]
    exact ⟨_, loads.does_carryOut does level json⟩

/-- A run in which no stage fails hands its agents over to a relay, and reports what that comes to.
-/
theorem Starts.does (starts : Starts w options s es numbered) (level : Option String)
    (json : Bool) :
    ∃ entries log, Does (carryOut w.outside.recorded options level json)
      (Outcome.report { relayOutcome w s es numbered with entries } log)
      (reads options ++ (es.map .connect ++
        [.openInput options.input, .launch (setup w s es numbered)])) := by
  obtain ⟨file, loads, rfl⟩ := starts.merged
  have does := does_stages starts.toParsed.checked starts.reachable starts.opened
  exact ⟨_, _, loads.does_carryOut does level json⟩

/-- A run in which no stage fails reports what comes of its relay. -/
theorem Starts.relayed (starts : Starts w options s es numbered) (level : Option String)
    (json : Bool) :
    Relayed es (setup w s es numbered) w.interruptAt (run w options level json) := by
  obtain ⟨entries, log, does⟩ := starts.does level json
  have report : run w options level json = _ :=
    (agrees_carryOut w.outside options level json).run_eq does
  rw [report]
  exact relayed_of_launch (endpoints_ne_nil starts.valid starts.endpoints_eq) numbered entries log

end Deeds

/-! ## All or nothing -/

/-- What a run reports that has failed at startup, and has not done. -/
structure Stopped (report : Report) (f : Failure) (connected : List Endpoint)
    (deeds : List Deed) : Prop where
  code : report.code = 1
  failure : report.failure = some f
  output : report.output = []
  /-- No agent was called. -/
  calls : report.calls = []
  /-- Nothing was logged but which agents were reached. -/
  log : ∀ entry ∈ report.log, ∃ e ∈ connected, entry = Transport.connectedEntry e
  idle : ∀ setup, .launch setup ∉ deeds

/-- What a relay is given by a run with some settings and endpoints. -/
structure Equips (w : World) (s : Settings) (es : List Endpoint)
    (numbered : List Feed.Lines.Numbered) (setup : Relay.Setup) : Prop where
  /-- One agent for each address, in their order. -/
  agents : List.Forall₂ (fun address agent => ∃ e, Endpoint.parse address = .ok e ∧
    agent = Transport.remoteAgent e (w.exchange e)) s.agents setup.agents
  addresses : setup.agents.map (·.address) = es.map (·.url)
  capacity : setup.capacity = s.queueCapacity.toNat
  limit : setup.limit = s.callTimeout.toNat
  feed : setup.feed = Run.feed w.interrupted numbered

theorem Parsed.equips {w : World} {options : RunOptions} {s : Settings} {es : List Endpoint}
    (parses : Parsed w options s es) (numbered : List Feed.Lines.Numbered) :
    Equips w s es numbered (setup w s es numbered) where
  agents := by
    refine List.forall₂_map_right_iff.2 (parses.addresses.imp fun address e parsed => ?_)
    exact ⟨e, parsed, rfl⟩
  addresses := List.map_map
  capacity := rfl
  limit := rfl
  feed := rfl

theorem Fails.stopped {w : World} {options : RunOptions} {f : Failure} {connected : List Endpoint}
    {deeds : List Deed} (fails : Fails w options f connected deeds) (log : LogSettings) :
    Stopped ((Outcome.failed f (connected.map Transport.connectedEntry)).report log) f connected
      deeds where
  code := rfl
  failure := rfl
  output := rfl
  calls := rfl
  log entry mem := by
    obtain ⟨e, reached, rfl⟩ := List.mem_map.1 (List.mem_filter.1 mem).1
    exact ⟨e, reached, rfl⟩
  idle setup := by cases fails <;> simp [reads]

/-- A command line that asks for a run makes one. -/
theorem execute_eq {w : World} {args : List String} {level : Option String} {json : Bool}
    {options : RunOptions} (accepted : parse w.agents args = .ok ⟨level, json, .run options⟩) :
    execute w args = run w options level json := by
  rw [execute, accepted]
  rfl

/-- Startup is all or nothing. Either a stage is the first to fail: then the run reports that
failure, and nothing that comes after it in the order of the stages is done. Or none does: then a
relay is launched, once, which is given all agents, and what the run reports is what comes of that
relay. What is done is what the command itself does when it is carried out with a record. -/
theorem startup_all_or_nothing {w : World} {args : List String} {level : Option String}
    {json : Bool} {options : RunOptions}
    (accepted : parse w.agents args = .ok ⟨level, json, .run options⟩) :
    ∃ deeds, (Command.carryOut w.outside.recorded ⟨level, json, .run options⟩).run [] =
        (execute w args, deeds) ∧
      ((∃ f connected, Fails w options f connected deeds ∧
          Stopped (execute w args) f connected deeds) ∨
        ∃ s es numbered setup, Starts w options s es numbered ∧ Equips w s es numbered setup ∧
          deeds = reads options ++ (es.map .connect ++
            [.openInput options.input, .launch setup]) ∧
          Relayed es setup w.interruptAt (execute w args)) := by
  have agrees := agrees_carryOut w.outside options level json
  rw [execute_eq accepted]
  rcases fails_or_starts w options with ⟨f, connected, deeds, fails⟩ | ⟨s, es, numbered, starts⟩
  · obtain ⟨log, does⟩ := fails.does level json
    have report : run w options level json = _ := agrees.run_eq does
    refine ⟨deeds, report ▸ does [], .inl ⟨f, connected, fails, ?_⟩⟩
    rw [report]
    exact fails.stopped log
  · obtain ⟨entries, log, does⟩ := starts.does level json
    have report : run w options level json = _ := agrees.run_eq does
    exact ⟨_, report ▸ does [], .inr ⟨s, es, numbered, _, starts, starts.toParsed.equips numbered,
      rfl, starts.relayed level json⟩⟩

/-- A world without files, in which the second of three agents cannot be reached. -/
def brokenWorld : World where
  files _ := .missing
  input := []
  agents := some "a,b,c"
  probe e := if e.host = "b" then .error "refused" else .ok ()
  exchange _ _ _ := Transport.refusal
  ids := toString
  interrupted := false

/-- A run there, with an input that does not exist. -/
def brokenOptions : RunOptions :=
  ⟨none, ["a", "b", "c"], none, none, defaultConnectTimeout, "events"⟩

/-- That an agent cannot be reached comes before that there is no input. -/
theorem fails_brokenWorld :
    Fails brokenWorld brokenOptions
      ⟨"agent startup failed", ["Could not connect to agent http://b:50051: refused"]⟩
      [⟨.http, "a", 50051, ""⟩]
      [.connect ⟨.http, "a", 50051, ""⟩, .connect ⟨.http, "b", 50051, ""⟩] := by
  have parsed : Parsed brokenWorld brokenOptions (merge .default brokenOptions)
      ([⟨.http, "a", 50051, ""⟩] ++ ⟨.http, "b", 50051, ""⟩ :: [⟨.http, "c", 50051, ""⟩]) :=
    ⟨⟨⟨.default, .default rfl, rfl⟩, by decide +kernel⟩, by decide +kernel⟩
  exact .unreachable parsed (by decide +kernel) rfl

theorem listed_agents : "a,b,c".splitOn "," = ["a", "b", "c"] := by
  simp +decide [String.splitOn, String.splitOnAux]

theorem accepted_brokenWorld :
    parse brokenWorld.agents ["run", "--input", "events"] =
      .ok ⟨none, false, .run brokenOptions⟩ := by
  have read : readParameters topParameters [] ["run", "--input", "events"] =
      .ok ([], ["run", "--input", "events"]) := by decide +kernel
  have rest : readRest runParameters ["--input", "events"] = .ok [⟨"input", "events"⟩] := by
    decide +kernel
  have options : runOptions brokenWorld.agents [⟨"input", "events"⟩] = brokenOptions := by
    simp [runOptions, brokenWorld, brokenOptions, listed_agents, value?]
  rw [parse, read]
  simp only [bind, Except.bind, rest, options]
  rfl

/-- The same world with all agents reached. -/
def openWorld : World :=
  { brokenWorld with probe := fun _ => .ok () }

/-- A run there, with nothing typed in. -/
def openOptions : RunOptions :=
  { brokenOptions with input := standardInput }

/-- The endpoints of its agents. -/
def openEndpoints : List Endpoint :=
  [⟨.http, "a", 50051, ""⟩, ⟨.http, "b", 50051, ""⟩, ⟨.http, "c", 50051, ""⟩]

theorem starts_openWorld :
    Starts openWorld openOptions (merge .default openOptions) openEndpoints [] where
  merged := ⟨.default, .default rfl, rfl⟩
  valid := by decide +kernel
  addresses := by decide +kernel
  reachable _ _ := rfl
  opened := rfl

theorem accepted_openWorld :
    parse openWorld.agents ["run"] = .ok ⟨none, false, .run openOptions⟩ := by
  have read : readParameters topParameters [] ["run"] = .ok ([], ["run"]) := by decide +kernel
  have rest : readRest runParameters [] = .ok [] := rfl
  have options : runOptions openWorld.agents [] = openOptions := by
    simp [runOptions, openWorld, openOptions, brokenWorld, brokenOptions, listed_agents, value?]
  rw [parse, read]
  simp only [bind, Except.bind, rest, options]
  rfl

/-- A startup that fails, and one that does not. -/
theorem startup_all_or_nothing_brokenWorld :
    (parse brokenWorld.agents ["run", "--input", "events"] =
        .ok ⟨none, false, .run brokenOptions⟩ ∧
      ∃ deeds connected,
        (Command.carryOut brokenWorld.outside.recorded ⟨none, false, .run brokenOptions⟩).run [] =
          (execute brokenWorld ["run", "--input", "events"], deeds) ∧
        deeds = [.connect ⟨.http, "a", 50051, ""⟩, .connect ⟨.http, "b", 50051, ""⟩] ∧
        Stopped (execute brokenWorld ["run", "--input", "events"])
          ⟨"agent startup failed", ["Could not connect to agent http://b:50051: refused"]⟩ connected
          deeds) ∧
    parse openWorld.agents ["run"] = .ok ⟨none, false, .run openOptions⟩ ∧
      ∃ setup,
        (Command.carryOut openWorld.outside.recorded ⟨none, false, .run openOptions⟩).run [] =
          (execute openWorld ["run"],
            openEndpoints.map .connect ++ [.openInput "-", .launch setup]) ∧
        setup.agents.map (·.address) = ["http://a:50051", "http://b:50051", "http://c:50051"] ∧
        setup.capacity = 100 ∧ setup.limit = 5000 ∧ (execute openWorld ["run"]).code = 0 ∧
        ∃ moves left, Relay.Returns setup false moves left ∧
          Reports openEndpoints (execute openWorld ["run"]) left := by
  constructor
  · obtain ⟨deeds, done, ends⟩ := startup_all_or_nothing accepted_brokenWorld
    obtain ⟨log, does⟩ := fails_brokenWorld.does none false
    obtain ⟨same, rfl⟩ := Prod.mk.inj (done.symm.trans (does []))
    rcases ends with ⟨f, connected, fails, stopped⟩ | ⟨s, es, numbered, setup, -, -, other, -⟩
    · have failure := stopped.failure
      rw [same] at failure
      cases failure
      exact ⟨accepted_brokenWorld, _, connected, done, rfl, stopped⟩
    · have last := congrArg List.getLast? other
      simp at last
  · obtain ⟨deeds, done, ends⟩ := startup_all_or_nothing accepted_openWorld
    obtain ⟨entries, log, does⟩ := starts_openWorld.does none false
    obtain ⟨-, rfl⟩ := Prod.mk.inj (done.symm.trans (does []))
    rcases ends with ⟨f, connected, -, stopped⟩ | ⟨s, es, numbered, setup, -, -, same, relayed⟩
    · exact absurd (by simp)
        (stopped.idle (Run.setup openWorld (merge .default openOptions) openEndpoints []))
    · rw [List.nil_append] at same
      obtain ⟨connects, last⟩ := List.append_inj' (List.append_cancel_left same) rfl
      obtain rfl := List.map_injective_iff.2 (fun _ _ => Deed.connect.inj) connects
      cases last
      refine ⟨accepted_openWorld, _, done, rfl, rfl, rfl, ?_⟩
      cases relayed with
      | brokenDown refused => cases refused
      | @ended moves t result _ _ run last finished _ reports =>
        have code : (((Relay.State.start (Run.setup openWorld (merge .default openOptions)
            openEndpoints []) false).run openWorld.interruptAt).supervisor.result.map fun result =>
              (relayEnding result).code) = some 0 := by decide +kernel
        rw [← last, finished] at code
        exact ⟨reports.code.trans (Option.some.inj code), moves, _, .ended rfl run finished, reports⟩

end TxRelay.Command.Run
