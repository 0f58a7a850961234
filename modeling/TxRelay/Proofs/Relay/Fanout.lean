import TxRelay.Proofs.Relay.Cause

/-!
# Fan-out

In a calm run every task ends without an error: ingestion with the last item of the feed, every
worker with an empty queue. Then the broadcast is complete, every agent has got every message once,
and the summary lists the workers in the order of their agents.

Results:
* `complete_of_run`: a run that has ended without an error has left nothing out.
* `fannedOut_of_run`: what the agents got, and what the summary says, when a calm run has ended.
* `fanned_out`: a calm run ends, whatever the order of the steps, and ends so.
-/

namespace TxRelay.Relay

/-- Nothing goes wrong by itself: the feed comes to its end without a failure, and no call breaks
down. -/
structure Setup.Calm (setup : Setup) : Prop where
  feed : ∀ step ∈ setup.feed, step.flows = true
  agents : ∀ agent ∈ setup.agents, agent.Steady setup.limit

/-- No call to steady agents breaks down. -/
theorem not_brokeDown {setup : Setup} (steady : ∀ agent ∈ setup.agents, agent.Steady setup.limit)
    (left : Return) (reason : String) : ¬ BrokeDown setup left reason := by
  rintro ⟨index, number, agent, calls, call, hagent, -, -, crashed⟩
  exact steady agent (List.mem_of_getElem? hagent) number call.request reason crashed

/-- What an agent's calls came to. -/
def callOutcomes (limit : ℕ) (agent : Agent) (calls : List Worker.Call) : List Outcome :=
  calls.mapIdx fun number call => (agent.respond number call.request).outcome limit

/-- Every agent got every message of the feed once and in order, and the summary says so. -/
structure FannedOut (setup : Setup) (left : Return) (summary : Summary) : Prop where
  result : left.result = .ok summary
  agents : left.calls.length = setup.agents.length
  /-- The calls of each agent carry the messages of the feed. -/
  messages : ∀ calls ∈ left.calls, calls.map (·.request.message) = Feed.messages setup.feed
  /-- The calls for one message bear the same identifier at all agents. -/
  ids : ∀ calls ∈ left.calls, calls.map (·.request.id) =
    (List.range (Feed.messages setup.feed).length).map setup.ids
  /-- The calls for different messages bear different ones. -/
  distinct : Function.Injective setup.ids →
    ∀ calls ∈ left.calls, (calls.map (·.request.id)).Nodup
  received : summary.totals.received = (Feed.items setup.feed).length
  unconverted : summary.totals.unconverted = Feed.unconverted setup.feed
  dispatched : summary.totals.dispatched =
    setup.agents.length * (summary.totals.received - summary.totals.unconverted)
  workers : summary.workers.length = setup.agents.length
  /-- The counts are those of the agents, in their order. -/
  stats : ∀ {index : ℕ} {agent : Agent} {calls : List Worker.Call},
    setup.agents[index]? = some agent → left.calls[index]? = some calls →
      summary.workers[index]? = some
        ⟨agent.address,
          .of (Feed.messages setup.feed).length (callOutcomes setup.limit agent calls)⟩
  /-- Each agent's calls are all received and all counted. -/
  counted : ∀ stats ∈ summary.workers,
    stats.counts.received = summary.totals.received - summary.totals.unconverted ∧
      stats.counts.total = stats.counts.received

section FannedOut

variable {setup : Setup} {moves : List Move} {t : State}

/-- A calm run does not return an error. -/
theorem firstError_of_calm {signal : Bool} (run : Run (.start setup signal) moves t)
    (calm : setup.Calm) (quiet : signal = false) (alone : .raise ∉ moves) {result}
    (finished : t.supervisor.result = some result) : t.firstError? = none := by
  have explained := explained_of_run run finished
  have flawless : ∀ step ∈ setup.feed, step.failure? = none :=
    fun step hstep => Feed.failure?_of_flows (calm.feed step hstep)
  exact ((register_of_run run).result_eq finished).2.1
    (explained.well quiet alone flawless (not_brokeDown calm.agents _))

/-- Without an error the supervisor ends with the counts of all workers, in their order. -/
theorem Register.summary_eq (h : Register t) {result : Except RunError Summary}
    (finished : t.supervisor.result = some result) (spotless : t.firstError? = none) :
    result = .ok ⟨t.ingestion.totals, t.workers.map Worker.stats⟩ := by
  obtain ⟨-, hends, all, rfl⟩ := h.result finished
  obtain ⟨-, closed, released⟩ := h.all_ended all
  obtain ⟨-, -, htotals⟩ := h.exhausted closed spotless
  have herror : t.supervisor.error = none := by
    simpa [State.firstError?, hends] using spotless
  have hworkers : t.supervisor.workers = t.workers.map fun w => some w.stats := by
    apply List.ext_getElem?
    intro index
    rw [List.getElem?_map]
    cases worker : t.workers[index]? with
    | none =>
      rw [List.getElem?_eq_none_iff] at worker
      exact List.getElem?_eq_none_iff.2 (h.slots ▸ worker)
    | some w =>
      obtain ⟨-, hslot⟩ := h.stopped worker (released w (List.mem_of_getElem? worker)) spotless
      rw [hends] at hslot
      simpa using hslot
  rw [hends] at htotals
  have htotals : t.supervisor.totals = t.ingestion.totals := by simpa using htotals
  have hstats :
      (t.workers.map fun w => some w.stats).filterMap id = t.workers.map Worker.stats := by
    rw [List.filterMap_map, ← List.filterMap_eq_map]; rfl
  rw [Supervisor.verdict, herror, htotals, hworkers, hstats]

/-- Without an error a worker that has ended has called its agent with every request. -/
theorem Register.all_called (h : Register t) {full next : ℕ} (delivery : Delivery t full next)
    (closed : t.closed = true) (spotless : t.firstError? = none) {index : ℕ} {w : Worker}
    (worker : t.workers[index]? = some w) (released : w.released = true) :
    w.activity = .stopped false ∧ w.calls.map (·.request) = t.ingestion.tagged := by
  obtain ⟨stopped, -⟩ := h.stopped worker released spotless
  obtain ⟨-, hdispatched, -⟩ := h.exhausted closed spotless
  have hindex : index < t.workers.length := (List.getElem?_eq_some_iff.1 worker).1
  refine ⟨stopped, ?_⟩
  rw [((delivery.served worker).drained stopped).2]
  apply List.take_of_length_le
  rw [delivery.broadcast.dispatched] at hdispatched
  rcases delivery.broadcast.tagged with ⟨hlength, rfl⟩ | hlength
  · rw [hlength, placed_zero]
  · -- one more request was tagged than put on every queue, so it is on all of them
    rw [hlength, Nat.mul_succ, Nat.add_left_cancel_iff] at hdispatched
    rw [hlength, placed, hdispatched, if_pos hindex]

/-- A worker that has stopped has counted all its calls. -/
theorem counts_of_stopped {w : Worker} (account : w.Account) {cancelled : Bool}
    (stopped : w.activity = .stopped cancelled) :
    w.counts = .of w.calls.length (callOutcomes w.limit w.agent w.calls) ∧
      w.counts.total = w.calls.length := by
  have hsettled : w.settled = w.calls := by simp [Worker.settled, stopped]
  refine ⟨?_, by rw [account.total_eq, hsettled]⟩
  rw [account.counts, Worker.outcomes, hsettled]
  rfl

/-- A run has ended without an error: the feed is taken, and every agent has got every request. -/
structure Complete (setup : Setup) (t : State) : Prop where
  intake : Intake setup t.ingestion setup.feed
  dispatched : t.ingestion.totals.dispatched = t.workers.length * t.ingestion.tagged.length
  called : ∀ w ∈ t.workers,
    w.activity = .stopped false ∧ w.calls.map (·.request) = requests setup.ids setup.feed

theorem complete_of_run {signal : Bool} (run : Run (.start setup signal) moves t)
    {result : Except RunError Summary} (finished : t.supervisor.result = some result)
    (spotless : t.firstError? = none) : Complete setup t := by
  have register := register_of_run run
  obtain ⟨full, next, delivery⟩ := delivery_of_run run
  obtain ⟨taken, intake⟩ := intake_of_run run
  obtain ⟨-, -, all, -⟩ := register.result finished
  obtain ⟨-, closed, released⟩ := register.all_ended all
  obtain ⟨exhausted, dispatched, -⟩ := register.exhausted closed spotless
  have htaken : taken = setup.feed := by rw [intake.feed, exhausted, List.append_nil]
  subst htaken
  refine ⟨intake, dispatched, fun w hw => ?_⟩
  obtain ⟨index, worker⟩ := List.mem_iff_getElem?.1 hw
  rw [← intake.tagged]
  exact register.all_called delivery closed spotless worker (released w hw)

namespace Complete

variable (h : Complete setup t)

include h

/-- Every agent got one call for each message. -/
theorem length_calls {w : Worker} (hw : w ∈ t.workers) :
    w.calls.length = (Feed.messages setup.feed).length := by
  rw [← List.length_map (·.request), (h.called w hw).2, length_requests]

/-- Every item that is not counted as having no message has one. -/
theorem received_sub :
    t.ingestion.totals.received - t.ingestion.totals.unconverted =
      (Feed.messages setup.feed).length := by
  have hitems := Feed.length_messages_add setup.feed
  rw [h.intake.received, h.intake.unconverted]
  omega

theorem map_message {w : Worker} (hw : w ∈ t.workers) :
    w.calls.map (·.request.message) = Feed.messages setup.feed := by
  rw [← map_message_requests setup.ids, ← (h.called w hw).2, List.map_map]
  rfl

theorem map_id {w : Worker} (hw : w ∈ t.workers) :
    w.calls.map (·.request.id) =
      (List.range (Feed.messages setup.feed).length).map setup.ids := by
  rw [← map_id_requests, ← (h.called w hw).2, List.map_map]
  rfl

/-- What the agents got, and what the summary says. -/
theorem fannedOut (crew : Crew setup t.workers) {left : Return} {summary : Summary}
    (result : left.result = .ok summary) (calls : left.calls = t.workers.map (·.calls))
    (reports : summary = ⟨t.ingestion.totals, t.workers.map Worker.stats⟩) :
    FannedOut setup left summary := by
  have mine {list : List Worker.Call} (hlist : list ∈ left.calls) :
      ∃ w ∈ t.workers, w.calls = list := by
    rw [calls] at hlist
    exact List.mem_map.1 hlist
  have counts {w : Worker} (hw : w ∈ t.workers) :=
    counts_of_stopped (crew.account w hw) (h.called w hw).1
  subst reports
  constructor
  case result => exact result
  case agents => rw [calls, List.length_map, crew.length]
  case messages =>
    intro list hlist
    obtain ⟨w, hw, rfl⟩ := mine hlist
    exact h.map_message hw
  case ids =>
    intro list hlist
    obtain ⟨w, hw, rfl⟩ := mine hlist
    exact h.map_id hw
  case distinct =>
    intro injective list hlist
    obtain ⟨w, hw, rfl⟩ := mine hlist
    rw [h.map_id hw]
    exact List.nodup_range.map injective
  case received => exact h.intake.received
  case unconverted => exact h.intake.unconverted
  case dispatched =>
    have htagged : t.ingestion.tagged.length = (Feed.messages setup.feed).length := by
      rw [h.intake.tagged, length_requests]
    rw [h.received_sub, ← htagged, ← crew.length]
    exact h.dispatched
  case workers => rw [List.length_map, crew.length]
  case stats =>
    intro index agent list hagent hlist
    simp only [calls, List.getElem?_map, Option.map_eq_some_iff] at hlist ⊢
    obtain ⟨w, worker, rfl⟩ := hlist
    have hw := List.mem_of_getElem? worker
    obtain rfl : agent = w.agent := Option.some.inj (hagent.symm.trans (crew.agent worker))
    refine ⟨w, worker, ?_⟩
    rw [Worker.stats, (counts hw).1, h.length_calls hw, crew.limit w hw]
  case counted =>
    intro stats hstats
    obtain ⟨w, hw, rfl⟩ := List.mem_map.1 hstats
    have hreceived : w.stats.counts.received = w.calls.length := by
      rw [Worker.stats, (counts hw).1]
      rfl
    refine ⟨?_, ?_⟩
    · rw [hreceived, h.length_calls hw, h.received_sub]
    · rw [hreceived]
      exact (counts hw).2

end Complete

/-- What the agents got, and what the summary says, when a calm run has ended. -/
theorem fannedOut_of_run (run : Run (.start setup false) moves t) (calm : setup.Calm)
    (alone : .raise ∉ moves) {result : Except RunError Summary}
    (finished : t.supervisor.result = some result) :
    ∃ summary,
      FannedOut setup ⟨result, t.workers.map (·.calls), t.ingestion.feed, t.signal⟩ summary := by
  have spotless := firstError_of_calm run calm rfl alone finished
  have complete := complete_of_run run finished spotless
  have result_eq := (register_of_run run).summary_eq finished spotless
  exact ⟨_, complete.fannedOut (crew_of_run run) result_eq rfl rfl⟩

end FannedOut

/-- A calm run that nobody stops ends, whatever the order of the steps, and when it has ended every
agent has got every message once and in order. -/
theorem fanned_out {setup : Setup} {s : State} (launched : launch setup false = .ok s)
    (calm : setup.Calm) :
    (∀ moves left, .raise ∉ moves → Returns setup false moves left →
      ∃ summary, FannedOut setup left summary) ∧
    Inevitable (fun t => ∃ moves left, .raise ∉ moves ∧ Returns setup false moves left ∧
      t.supervisor.result = some left.result ∧ ∃ summary, FannedOut setup left summary) s := by
  obtain ⟨rfl, agents, -⟩ := launch_eq_ok launched
  refine ⟨?_, ?_⟩
  · intro moves left alone returns
    cases returns with
    | refused unstarted => rw [launched] at unstarted; cases unstarted
    | ended launched' run finished =>
      obtain ⟨rfl, -, -⟩ := launch_eq_ok launched'
      exact fannedOut_of_run run calm alone finished
  · refine (inevitable_result .start (.inr (Feed.quiet_notMem calm.feed))).mono ?_
    rintro t ⟨isSome, moves, run, alone⟩
    obtain ⟨result, finished⟩ := Option.isSome_iff_exists.1 isSome
    exact ⟨moves, _, alone, .ended launched run finished, finished,
      fannedOut_of_run run calm alone finished⟩

/-- Two agents, one of them silent and one that fails and then is slow, and no room but for one
request. -/
def calmSetup : Setup where
  name := defaultName
  capacity := 0
  limit := 50
  agents :=
    [.scripted "a" [⟨0, .silence⟩],
      .scripted "b" [⟨3, .answer (.error (.transport "reset"))⟩, ⟨20, .answer (.ok .none)⟩]]
  feed :=
    [.item (.event plainEvent), .item (.event { plainEvent with chainId := none }), .pause 10,
      .item (.event plainEvent)]
  ids := toString

theorem calm_calmSetup : calmSetup.Calm where
  feed := by decide
  agents := by
    intro agent hagent
    simp only [calmSetup, List.mem_cons, List.not_mem_nil, or_false] at hagent
    rcases hagent with rfl | rfl
    · exact scripted_steady (by simp [outcome_ne_crash]) _
    · exact scripted_steady (by simp [outcome_ne_crash]) _

theorem fanned_out_calmSetup :
    launch calmSetup false = .ok (.start calmSetup false) ∧ calmSetup.Calm ∧
    ∃ moves left summary, .raise ∉ moves ∧ Returns calmSetup false moves left ∧
      FannedOut calmSetup left summary ∧ summary.totals = ⟨3, 1, 4⟩ ∧
      summary.workers = [⟨"a", 2, 0, 0, 0, 2⟩, ⟨"b", 2, 1, 1, 0, 0⟩] := by
  have launched : launch calmSetup false = .ok (.start calmSetup false) := rfl
  obtain ⟨moves, run, calm⟩ := run_runFrom none 40 (.start calmSetup false)
  have finished : ((State.start calmSetup false).runFrom none 40).supervisor.result =
      some (.ok ⟨⟨3, 1, 4⟩, [⟨"a", 2, 0, 0, 0, 2⟩, ⟨"b", 2, 1, 1, 0, 0⟩]⟩) := rfl
  have returns := Returns.ended launched run finished
  obtain ⟨summary, out⟩ := (fanned_out launched calm_calmSetup).1 moves _ (calm rfl) returns
  cases out.result
  exact ⟨launched, calm_calmSetup, moves, _, _, calm rfl, returns, out, rfl, rfl⟩

end TxRelay.Relay
