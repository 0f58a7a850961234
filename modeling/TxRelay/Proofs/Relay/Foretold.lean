import TxRelay.Proofs.Relay.Fanout

/-!
# What a feed foretells of a run

A run with steady agents and no signal from outside ends as its feed does: with the failure of the feed
if it fails, and well if it does not. At any moment each agent has been called with the first messages
of the feed, and with all of them when the run has ended well. None of this depends on the order of the
steps or on how long the calls take.

Results:
* `flawless_of_run`: as long as no task has failed, no failure has been taken from the feed.
* `foretold_of_run`: what is known from the feed of a run that has ended.
-/

namespace TxRelay.Feed

/-- The failure of a feed, if it fails. -/
def failure? (steps : List Step) : Option FeedError :=
  steps.findSome? Step.failure?

theorem failure?_eq_none_iff {steps : List Step} :
    failure? steps = none ↔ ∀ step ∈ steps, step.failure? = none :=
  List.findSome?_eq_none_iff

/-- The failure of a feed is its first. -/
theorem failure?_of_first {taken rest : List Step} {error : FeedError}
    (first : ∀ step ∈ taken, step.failure? = none) :
    failure? (taken ++ .fail error :: rest) = some error := by
  rw [failure?, List.findSome?_append, List.findSome?_eq_none_iff.2 first]
  rfl

end TxRelay.Feed

namespace TxRelay.Relay

variable {setup : Setup} {signal : Bool} {moves : List Move} {t : State}

/-- As long as no task has failed, no failure has been taken from the feed. -/
theorem flawless_of_run (run : Run (.start setup signal) moves t) (spotless : t.firstError? = none) :
    ∃ taken, Intake setup t.ingestion taken ∧ ∀ step ∈ taken, step.failure? = none := by
  induction run with
  | start => exact ⟨[], intake_start setup signal, by simp⟩
  | @next moves s m t run move ih =>
    have happens := happens_of_after move
    obtain ⟨taken, intake, flawless⟩ := ih (happens.spotless spotless)
    cases happens with
    | ingestion step =>
      by_cases ended : t.ingestion.activity = .ended
      · -- only a failure of the feed is both taken and ends ingestion, and it is an error
        cases step with
        | cancel | exhaust | dead => exact ⟨taken, intake.setActivity .ended (by simp), flawless⟩
        | fail => simp [State.firstError?, State.endIngestion, TaskEnd.error?] at spotless
        | skip | tag => simp [State.goOn] at ended
        | pause | resume | finish | push => cases ended
      · have same : s.setup = setup := run.setup
        rw [← same] at intake ⊢
        obtain ⟨taken, intake⟩ := intake.step step
        exact ⟨taken, intake, intake.unfailed ended⟩
    | join => exact ⟨taken, by simpa using intake, flawless⟩
    | conclude => exact ⟨taken, by simpa using intake, flawless⟩
    | worker | pass | raise => exact ⟨taken, intake, flawless⟩

/-- Each agent has been called with the first requests of the feed. -/
theorem requests_called (run : Run (.start setup signal) moves t) {w : Worker}
    (worker : w ∈ t.workers) : w.calls.map (·.request) <+: requests setup.ids setup.feed := by
  obtain ⟨full, next, delivery⟩ := delivery_of_run run
  obtain ⟨taken, intake⟩ := intake_of_run run
  obtain ⟨index, found⟩ := List.mem_iff_getElem?.1 worker
  have tagged := (delivery.served found).called.trans (List.take_prefix _ _)
  rw [intake.tagged] at tagged
  exact tagged.trans (requests_mono _ ⟨_, intake.feed.symm⟩)

theorem messages_called (run : Run (.start setup signal) moves t) {w : Worker}
    (worker : w ∈ t.workers) :
    w.calls.map (·.request.message) <+: Feed.messages setup.feed := by
  have messages := (requests_called run worker).map (·.message)
  rwa [map_message_requests, List.map_map] at messages

/-- What is known from the feed of a run that has ended. -/
structure Foretold (setup : Setup) (left : Return) : Prop where
  agents : left.calls.length = setup.agents.length
  begun : ∀ calls ∈ left.calls, calls.map (·.request.message) <+: Feed.messages setup.feed
  failed : ∀ {error}, Feed.failure? setup.feed = some error → left.result = .error (.feed error)
  well : Feed.failure? setup.feed = none →
    (∃ summary, left.result = .ok summary ∧
      summary.totals.unconverted = Feed.unconverted setup.feed) ∧
      ∀ calls ∈ left.calls, calls.map (·.request.message) = Feed.messages setup.feed

/-- A run that ends well has taken its feed to the end, and the feed has not failed. -/
theorem failure?_of_complete (run : Run (.start setup signal) moves t)
    (spotless : t.firstError? = none) (complete : Complete setup t) :
    Feed.failure? setup.feed = none := by
  obtain ⟨taken, intake, flawless⟩ := flawless_of_run run spotless
  have exhausted : t.ingestion.feed = [] := by simpa using complete.intake.feed
  rw [intake.feed, exhausted, List.append_nil]
  exact Feed.failure?_eq_none_iff.2 flawless

/-- With steady agents and no signal from outside, an error that a run returns is the failure of its
feed. -/
theorem failure?_of_error (run : Run (.start setup false) moves t)
    (steady : ∀ agent ∈ setup.agents, agent.Steady setup.limit) (alone : .raise ∉ moves)
    {e : RunError} (first : t.firstError? = some e) :
    ∃ error, e = .feed error ∧ Feed.failure? setup.feed = some error := by
  let left : Return := ⟨.error e, t.workers.map (·.calls), t.ingestion.feed, t.signal⟩
  have cause : Cause setup false moves left e := cause_of_run run first rfl rfl
  cases cause with
  | feed failed flawless =>
    refine ⟨_, rfl, ?_⟩
    rw [failed]
    exact Feed.failure?_of_first flawless
  | crash broke => exact absurd broke (not_brokeDown steady left _)
  | signal early =>
    rcases early with raised | ⟨before, after, s, rfl, -⟩
    · cases raised
    · simp at alone

/-- A run with steady agents and no signal from outside ends as its feed foretells. -/
theorem foretold_of_run (run : Run (.start setup false) moves t)
    (steady : ∀ agent ∈ setup.agents, agent.Steady setup.limit) (alone : .raise ∉ moves)
    {result : Except RunError Summary} (finished : t.supervisor.result = some result) :
    Foretold setup ⟨result, t.workers.map (·.calls), t.ingestion.feed, t.signal⟩ := by
  have register := register_of_run run
  constructor
  case agents => exact (List.length_map _).trans (crew_of_run run).length
  case begun => exact List.forall_mem_map.2 fun w worker => messages_called run worker
  case failed =>
    intro error failure
    cases first : t.firstError? with
    | none =>
      have complete := complete_of_run run finished first
      cases failure.symm.trans (failure?_of_complete run first complete)
    | some e =>
      obtain ⟨error', rfl, failure'⟩ := failure?_of_error run steady alone first
      obtain rfl : error = error' := Option.some.inj (failure.symm.trans failure')
      exact (register.result_eq finished).1.2 first
  case well =>
    intro unfailed
    have first : t.firstError? = none := by
      cases first : t.firstError? with
      | none => rfl
      | some e =>
        obtain ⟨error, -, failure⟩ := failure?_of_error run steady alone first
        cases unfailed.symm.trans failure
    have complete := complete_of_run run finished first
    refine ⟨⟨_, register.summary_eq finished first, complete.intake.unconverted⟩, ?_⟩
    exact List.forall_mem_map.2 fun w worker => complete.map_message worker

end TxRelay.Relay
