import TxRelay.Proofs.Command.Deeds
import TxRelay.Proofs.Except
import TxRelay.Proofs.Feed.Lines
import TxRelay.Proofs.Relay.Cause
import TxRelay.Proofs.Relay.Prompt
import TxRelay.Proofs.Transport.Booking

/-!
# From a command to a relay

A run of the command that gets through its stages is a run of a relay: its agents are those of the
settings in their order, its feed makes the items of the input, and nothing stops it from outside but
an interrupt. What the command reports is what the relay returns, or that there was no room for its
queues.

Results:
* `relayed_of_launch`: what is reported of a relay that is launched.
* `Ready.carriedOut`: a run that is ready reports the exit code, the failure and the calls of its relay.
* `Ready.run_returns`: it is a run of the relay.
-/

namespace TxRelay.Command

/-- An input holds bytes: what is typed in, or a file. -/
inductive World.Holds (w : World) : String → List UInt8 → Prop
  | typed : Holds w "-" w.input
  | file {path bytes} (named : path ≠ "-") (found : w.files path = .bytes bytes) :
    Holds w path bytes

theorem World.Holds.open {w : World} {input : String} {bytes : List UInt8}
    (holds : w.Holds input bytes) :
    ∃ report, w.open input = .ok (Feed.Lines.ofLines report 1 (Feed.Lines.split bytes)) := by
  cases holds with
  | typed => exact ⟨.plain, by rw [World.open, if_pos rfl, Feed.Lines.read_eq]⟩
  | file named found =>
    refine ⟨.detailed, ?_⟩
    rw [World.open, if_neg named, found]
    exact congrArg Except.ok (Feed.Lines.read_eq ..)

namespace Run

/-- A run gets through its stages up to the input with some settings and endpoints, its queues have
room that queues can have, and nothing interrupts it. -/
structure Ready (w : World) (options : RunOptions) (s : Settings) (es : List Endpoint) : Prop where
  merged : ∃ file, settingsFile w options = .ok file ∧ merge file.settings options = s
  valid : s.validate = .ok ()
  addresses : Startup.endpoints s.agents = .ok es
  reachable : ∀ e ∈ es, w.probe e = .ok ()
  room : s.queueCapacity.toNat ≤ Relay.greatestRoom
  uninterrupted : w.interrupted = false

variable {w : World} {options : RunOptions} {s : Settings} {es : List Endpoint}
  {numbered : List Feed.Lines.Numbered}

/-- Valid settings name an agent. -/
theorem endpoints_ne_nil (valid : s.validate = .ok ())
    (addresses : Startup.endpoints s.agents = .ok es) : es ≠ [] := by
  rintro rfl
  have agentless := List.forall₂_nil_right_iff.1 (Except.mapM_eq_ok_iff.1 addresses)
  exact ((Settings.validate_eq_ok_iff _).1 valid).1 agentless

theorem check_endpoints (valid : s.validate = .ok ())
    (addresses : Startup.endpoints s.agents = .ok es) :
    (check s >>= fun _ => endpoints s) = .ok es := by
  rw [check, valid, endpoints, addresses]
  rfl

theorem Ready.endpoints_ne_nil (ready : Ready w options s es) : es ≠ [] :=
  Run.endpoints_ne_nil ready.valid ready.addresses

/-- A run that is ready reports what its relay leaves, with more in its log. -/
theorem Ready.report_eq (ready : Ready w options s es)
    (opened : w.open options.input = .ok numbered) (level : Option String) (json : Bool) :
    ∃ entries log, run w options level json =
      Outcome.report { relayOutcome w s es numbered with entries } log := by
  obtain ⟨file, found, rfl⟩ := ready.merged
  rw [run_eq, found]
  simp only [withSettings_eq (check_endpoints ready.valid ready.addresses) ready.reachable opened]
  exact ⟨_, _, rfl⟩

/-- A relay with as many agents as endpoints and the room of the settings is started. -/
theorem Ready.launch_eq (ready : Ready w options s es) {setup : Relay.Setup}
    (agents : setup.agents.length = es.length)
    (capacity : setup.capacity = s.queueCapacity.toNat) :
    Relay.launch setup false = .ok (.start setup false) := by
  have served : setup.agents ≠ [] := by
    rw [← List.length_pos_iff, agents]
    exact List.length_pos_iff.2 ready.endpoints_ne_nil
  rw [Relay.launch_of_agents served, capacity, if_neg (not_lt.2 ready.room)]

theorem feed_eq (uninterrupted : w.interrupted = false) :
    feed w.interrupted numbered = numbered.map (·.step) := by
  rw [feed, uninterrupted, if_neg Bool.false_ne_true, List.append_nil]

theorem quiet_notMem_steps : .quiet ∉ numbered.map (·.step) := by
  rw [List.mem_map]
  rintro ⟨n, -, quiet⟩
  rw [Feed.Lines.Numbered.step] at quiet
  split at quiet <;> cases quiet

/-- The calls of a worker, as its connection sends them. -/
def submissions (calls : List Worker.Call) : List Rpc.Call :=
  calls.mapIdx fun index call => Transport.numberedCall index call.request

theorem sent_eq (e : Endpoint) (worker : Worker) :
    sent e worker = (submissions worker.calls).map (e, ·) := by
  apply List.ext_getElem <;> simp [sent, submissions]

/-- What a command reports of a relay that has returned: its exit code, and the calls agent by
agent. -/
structure Reports (es : List Endpoint) (report : Report) (left : Relay.Return) : Prop where
  code : report.code = (relayEnding left.result).code
  calls : report.calls =
    (es.zip left.calls).flatMap fun agent => (submissions agent.2).map (agent.1, ·)

/-- A relay comes to a result if its feed ends or the signal is raised, and not before the start. -/
theorem run_to_end {setup : Relay.Setup} {signalAt : Option ℕ}
    (settled : (Relay.State.start setup false).Settled signalAt)
    (ends : .quiet ∉ setup.feed ∨ signalAt ≠ none) :
    let start := Relay.State.start setup false
    ∃ moves result, (signalAt = none → .raise ∉ moves) ∧
      Relay.Run start moves (start.run signalAt) ∧
      (start.run signalAt).supervisor.result = some result := by
  intro start
  obtain ⟨result, finished⟩ := Option.isSome_iff_exists.1 (Relay.run_isSome settled ends)
  obtain ⟨moves, run, calm⟩ := Relay.run_runFrom signalAt (2 * start.work + 3) start
  exact ⟨moves, result, calm, run, finished⟩

/-- What a relay leaves at its end. -/
def leaves (result : Except RunError Relay.Summary) (t : Relay.State) : Relay.Return :=
  ⟨result, t.workers.map (·.calls), t.ingestion.feed, t.signal⟩

/-- What a run reports that has broken down: it names no failure, and no agent was called. -/
structure BrokenDown (report : Report) : Prop where
  code : report.code = 101
  failure : report.failure = none
  output : report.output = []
  calls : report.calls = []

/-- What is reported is what comes of a relay that is launched with a setup: a run of it to its end, or
nothing if there is no room for its queues. -/
inductive Relayed (es : List Endpoint) (setup : Relay.Setup) (signalAt : Option ℕ) (report : Report) :
    Prop
  | ended {moves t result} (launched : Relay.launch setup false = .ok (.start setup false))
      (alone : signalAt = none → .raise ∉ moves) (run : Relay.Run (.start setup false) moves t)
      (last : t = (Relay.State.start setup false).run signalAt)
      (finished : t.supervisor.result = some result)
      (failure : report.failure = (relayEnding result).failure?)
      (reports : Reports es report (leaves result t))
  | brokenDown (refused : Relay.launch setup false = .error .noRoom) (report : BrokenDown report)

/-- The report of a relay that has come to its end. -/
theorem reports_ofState (interrupted : Bool) (es : List Endpoint)
    (numbered : List Feed.Lines.Numbered) (t : Relay.State)
    (result : Except RunError Relay.Summary) (entries : List Log.Entry) (log : LogSettings) :
    Reports es (Outcome.report { ofState interrupted es numbered t result with entries } log)
      (leaves result t) where
  code := rfl
  calls := by
    simp only [Outcome.report, ofState, leaves, sent_eq, List.zip_map_right, List.flatMap_map,
      Prod.map]
    rfl

/-- The input of a run ends, or the run is interrupted. -/
theorem feed_ends (w : World) (numbered : List Feed.Lines.Numbered) :
    .quiet ∉ feed w.interrupted numbered ∨ w.interruptAt ≠ none := by
  cases interrupted : w.interrupted with
  | true => exact .inr (by simp [World.interruptAt, interrupted])
  | false =>
    rw [← interrupted, feed_eq interrupted]
    exact .inl quiet_notMem_steps

/-- An interrupt comes after the start. -/
theorem settled_start (w : World) (setup : Relay.Setup) :
    (Relay.State.start setup false).Settled w.interruptAt := by
  intro moment due le
  rw [World.interruptAt] at due
  split at due <;> cases due
  cases le

/-- What a run reports that launches a relay with agents. -/
theorem relayed_of_launch (agents : es ≠ []) (numbered : List Feed.Lines.Numbered)
    (entries : List Log.Entry) (log : LogSettings) :
    Relayed es (setup w s es numbered) w.interruptAt
      (Outcome.report { relayOutcome w s es numbered with entries } log) := by
  have served : (setup w s es numbered).agents ≠ [] := mt List.map_eq_nil_iff.1 agents
  have launched := Relay.launch_of_agents served false
  split_ifs at launched with noRoom
  case pos =>
    have outcome : relayOutcome w s es numbered =
        ⟨[], .breakdown, startEntries (setup w s es numbered), []⟩ := by
      simp only [relayOutcome, World.launch, launched, ofLaunch]
    rw [outcome]
    exact .brokenDown launched ⟨rfl, rfl, rfl, rfl⟩
  case neg =>
    obtain ⟨moves, result, alone, run, finished⟩ :=
      run_to_end (settled_start w (setup w s es numbered)) (feed_ends w numbered)
    have outcome : relayOutcome w s es numbered = ofState w.interrupted es numbered
        ((Relay.State.start (setup w s es numbered) false).run w.interruptAt) result := by
      simp only [relayOutcome, World.launch, launched, ofLaunch, finished]
    rw [outcome]
    exact .ended launched alone run rfl finished rfl (reports_ofState _ _ _ _ _ _ _)

/-- A run that is ready runs the relay to its end and reports what that leaves. -/
theorem Ready.carriedOut (ready : Ready w options s es)
    (opened : w.open options.input = .ok numbered) (level : Option String) (json : Bool) :
    let start := Relay.State.start (setup w s es numbered) false
    let report := run w options level json
    ∃ moves result, .raise ∉ moves ∧ Relay.Run start moves (start.run none) ∧
      (start.run none).supervisor.result = some result ∧
      report.failure = (relayEnding result).failure? ∧
      Reports es report (leaves result (start.run none)) := by
  intro start report
  obtain ⟨entries, log, reported⟩ := ready.report_eq opened level json
  have uncut : w.interruptAt = none := by
    rw [World.interruptAt, ready.uninterrupted, if_neg Bool.false_ne_true]
  have relayed := relayed_of_launch (w := w) (s := s) ready.endpoints_ne_nil numbered entries log
  rw [← reported, uncut] at relayed
  cases relayed with
  | @ended moves t result launched alone run last finished failure reports =>
    subst last
    exact ⟨moves, result, alone rfl, run, finished, failure, reports⟩
  | brokenDown refused =>
    cases refused.symm.trans (ready.launch_eq (List.length_map _) rfl)

end Run

end TxRelay.Command
