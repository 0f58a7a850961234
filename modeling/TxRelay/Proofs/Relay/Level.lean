import TxRelay.Proofs.Relay.Fanout

/-!
# While nothing has gone wrong

As long as no task has ended with an error, every queue has been given the requests tagged so far, but
for the last one while it is being put on the queues. A worker has taken its requests from the front,
and it has ended only if the feed has.

Results:
* `smooth_of_run`: what holds in any state of any run in which no task has ended with an error.
-/

namespace TxRelay.Relay

/-- How many requests have been put on a queue when the broadcast is this far. -/
def State.handed (s : State) (index : ℕ) : ℕ :=
  match s.ingestion.activity with
  | .placing _ next => s.ingestion.tagged.length - 1 + if index < next then 1 else 0
  | _ => s.ingestion.tagged.length

/-- No task has ended with an error, and no call in flight is going to break down. -/
structure Smooth (setup : Setup) (s : State) : Prop where
  same : s.setup = setup
  crew : Crew setup s.workers
  intake : ∃ taken, Intake setup s.ingestion taken
  /-- A worker has called its agent with the first requests, and the others are on its queue. -/
  queued : ∀ {index : ℕ} {w : Worker}, s.workers[index]? = some w →
    w.calls.map (·.request) ++ w.queue = s.ingestion.tagged.take (s.handed index)
  /-- The request that is put on the queues has been tagged, and there are no more queues than
  workers. -/
  placing : ∀ {request next}, s.ingestion.activity = .placing request next →
    next ≤ s.workers.length ∧ 0 < s.ingestion.tagged.length
  released : ∀ {index : ℕ} {w : Worker}, s.workers[index]? = some w → w.released = true →
    s.closed = true ∧ w.activity = .stopped false ∧ w.queue = []
  steady : ∀ {index : ℕ} {w : Worker}, s.workers[index]? = some w →
    ∀ {request finish outcome}, w.activity = .calling request finish outcome →
      Worker.mark? outcome ≠ none
  exhausted : s.closed = true → s.ingestion.feed = []

section Handed

variable {s : State} {full next index : ℕ}

/-- Without an error every queue has been given all it is to be given. -/
theorem handed_eq_placed (delivery : Delivery s full next) (register : Register s)
    (spotless : s.firstError? = none) (within : index < s.workers.length) :
    s.handed index = placed full next index := by
  have broadcast := delivery.broadcast
  have between (hlength : s.ingestion.tagged.length = full) :
      s.ingestion.tagged.length = placed full next index := by
    rcases broadcast.tagged with ⟨-, rfl⟩ | hmore
    · rw [placed_zero, hlength]
    · omega
  unfold State.handed
  cases hactivity : s.ingestion.activity with
  | pulling => exact between (broadcast.ready hactivity)
  | pausing finish => exact between (broadcast.paused hactivity)
  | placing request at' =>
    obtain ⟨rfl, before, htagged, hbefore⟩ := broadcast.placing hactivity
    have hlength : s.ingestion.tagged.length = full + 1 := by simp [htagged, hbefore]
    simp [placed, hlength]
  | ended =>
    obtain ⟨-, hdispatched, -⟩ := register.exhausted (closed_iff.2 hactivity) spotless
    rcases broadcast.tagged with ⟨hlength, -⟩ | hlength
    · exact between hlength
    · -- one more request was tagged than put on every queue, so it is on all of them
      rw [broadcast.dispatched, hlength, Nat.mul_succ, Nat.add_left_cancel_iff] at hdispatched
      simp [placed, hlength, hdispatched, within]

end Handed

/-- What holds in any state of any run in which no task has ended with an error. -/
theorem smooth_of_run {setup : Setup} {signal : Bool} {moves : List Move} {t : State}
    (run : Run (.start setup signal) moves t)
    (steady : ∀ agent ∈ setup.agents, agent.Steady setup.limit)
    (spotless : t.firstError? = none) : Smooth setup t := by
  have register := register_of_run run
  have crew := crew_of_run run
  obtain ⟨full, next, delivery⟩ := delivery_of_run run
  have broadcast := delivery.broadcast
  constructor
  case same => exact run.setup
  case crew => exact crew
  case intake => exact intake_of_run run
  case queued =>
    intro index w worker
    have within : index < t.workers.length := (List.getElem?_eq_some_iff.1 worker).1
    have served := delivery.served worker
    rw [handed_eq_placed delivery register spotless within]
    cases released : w.released with
    | false => exact served.queued released
    | true =>
      obtain ⟨stopped, -⟩ := register.stopped worker released spotless
      rw [served.released released, List.append_nil]
      exact (served.drained stopped).2
  case placing =>
    intro request index placing
    obtain ⟨rfl, before, htagged, -⟩ := broadcast.placing placing
    exact ⟨broadcast.le, by simp [htagged]⟩
  case released =>
    intro index w worker released
    have served := delivery.served worker
    obtain ⟨stopped, -⟩ := register.stopped worker released spotless
    exact ⟨(served.drained stopped).1, stopped, served.released released⟩
  case steady =>
    intro index w worker request finish outcome calling hmark
    have hw := List.mem_of_getElem? worker
    obtain ⟨before, start, -, houtcome, -⟩ := (crew.account w hw).current calling
    obtain ⟨reason, rfl⟩ := Worker.eq_crash_of_mark hmark
    have hsteady := steady w.agent (List.mem_of_getElem? (crew.agent worker))
    rw [Worker.outcomeOf, crew.limit w hw] at houtcome
    exact hsteady _ _ reason houtcome.symm
  case exhausted => exact fun closed => (register.exhausted closed spotless).1

section Smooth

variable {setup : Setup} {s : State} {index : ℕ} {w : Worker}

theorem Smooth.handed_le (h : Smooth setup s) (index : ℕ) :
    s.handed index ≤ s.ingestion.tagged.length := by
  unfold State.handed
  cases hactivity : s.ingestion.activity with
  | placing request next =>
    have hpos := (h.placing hactivity).2
    dsimp only
    split_ifs <;> omega
  | pulling | pausing | ended => exact le_rfl

/-- What was put on a queue has been called or is still there. -/
theorem Smooth.length (h : Smooth setup s) (worker : s.workers[index]? = some w) :
    w.calls.length + w.queue.length = s.handed index := by
  have hlength := congrArg List.length (h.queued worker)
  rw [List.length_append, List.length_map, List.length_take, min_eq_left (h.handed_le index)]
    at hlength
  exact hlength

/-- The requests tagged are the first of those for the feed. -/
theorem Smooth.tagged (h : Smooth setup s) :
    s.ingestion.tagged <+: requests setup.ids setup.feed := by
  obtain ⟨taken, intake⟩ := h.intake
  rw [intake.tagged, intake.feed, requests, requests, Feed.messages_append, List.mapIdx_append]
  exact List.prefix_append _ _

/-- An agent is called with the first requests for the feed. -/
theorem Smooth.called (h : Smooth setup s) (worker : s.workers[index]? = some w) :
    w.calls.map (·.request) <+: requests setup.ids setup.feed :=
  ((List.prefix_append _ _).trans ((h.queued worker).symm ▸ List.take_prefix _ _)).trans h.tagged

theorem Smooth.tagged_length_le (h : Smooth setup s) :
    s.ingestion.tagged.length ≤ (Feed.messages setup.feed).length := by
  rw [← length_requests setup.ids]
  exact h.tagged.length_le

end Smooth

end TxRelay.Relay
