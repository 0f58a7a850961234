import TxRelay.Proofs.Relay.Progress

/-!
# What the result of a run names

One fault makes several tasks fail: a worker that breaks down leaves ingestion with a closed queue,
and a feed that fails has the signal raised, which cancels the workers. The first error is always
the fault itself. Ingestion finds a closed queue only behind a worker that has ended, and a worker
that has ended without an error has seen its queue closed, which ingestion does last. The signal is
raised without an error before it only from outside.

Results:
* `feed_failed`, `worker_crashed`, `raised_early`, `queueClosed_never`: where a first error comes
  from.
* `result_names_cause`: what is true of a run by its result, and which runs end well.
-/

namespace TxRelay.Relay

/-! ## Where the first error comes from -/

/-- The signal was raised from outside before any task had ended with an error: when the relay was
started, or by a move. -/
def RaisedEarly (setup : Setup) (signal : Bool) (moves : List Move) : Prop :=
  signal = true ∨ ∃ before after s, moves = before ++ .raise :: after ∧
    Run (.start setup signal) before s ∧ s.firstError? = none

section FirstError

variable {setup : Setup} {signal : Bool} {moves : List Move} {t : State}

/-- What holds when the first error comes about, and is kept, holds ever after. -/
theorem firstError_induction {P : List Move → State → Prop} {e : RunError}
    (origin : ∀ {moves s m t}, Run (.start setup signal) moves s → Happens s m t →
      s.firstError? = none → Origin s t e → P (moves ++ [m]) t)
    (keep : ∀ {moves s m t}, P moves s → Happens s m t → P (moves ++ [m]) t)
    (run : Run (.start setup signal) moves t) (h : t.firstError? = some e) : P moves t := by
  induction run with
  | start => cases h
  | @next moves s m t run move ih =>
    have happens := happens_of_after move
    rcases firstError_of_happens happens with same | ⟨spotless, e', he', horigin⟩
    · exact keep (ih (same ▸ h)) happens
    · obtain rfl : e' = e := Option.some.inj (he'.symm.trans h)
      exact origin run happens spotless horigin

/-- A feed that the first error says has failed did so with its first failure, and nothing was taken
from it afterwards. -/
theorem feed_failed {error : FeedError} (run : Run (.start setup signal) moves t)
    (h : t.firstError? = some (.feed error)) :
    ∃ taken, setup.feed = taken ++ .fail error :: t.ingestion.feed ∧
      ∀ step ∈ taken, step.failure? = none := by
  suffices h : t.ingestion.activity = .ended ∧
      ∃ taken, setup.feed = taken ++ .fail error :: t.ingestion.feed ∧
        ∀ step ∈ taken, step.failure? = none from h.2
  refine firstError_induction (P := fun _ t => t.ingestion.activity = .ended ∧
    ∃ taken, setup.feed = taken ++ .fail error :: t.ingestion.feed ∧
      ∀ step ∈ taken, step.failure? = none) ?_ ?_ run h
  · intro moves s m t run _ _ horigin
    obtain ⟨taken, intake⟩ := intake_of_run run
    cases horigin with
    | feed ready front after ended =>
      have hfeed := intake.feed
      rw [front, ← after] at hfeed
      exact ⟨ended, taken, hfeed, intake.unfailed (by simp [ready])⟩
  · intro moves s m t h move
    rw [move.ended h.1]
    exact h

/-- A task failed only because a worker broke down. -/
theorem worker_crashed {reason : String} (run : Run (.start setup signal) moves t)
    (h : t.firstError? = some (.taskFailed reason)) :
    ∃ (index : ℕ) (w : Worker), t.workers[index]? = some w ∧ w.activity = .crashed reason := by
  refine firstError_induction (P := fun _ t => ∃ (index : ℕ) (w : Worker),
    t.workers[index]? = some w ∧ w.activity = .crashed reason) ?_ ?_ run h
  · intro moves s m t _ _ _ horigin
    cases horigin with
    | crash worker crashed => exact ⟨_, _, worker, crashed⟩
  · rintro moves s m t ⟨index, w, worker, crashed⟩ move
    exact ⟨index, w, move.released worker (by simp [Worker.released, crashed]), crashed⟩

/-- The first error is never that a queue is closed: behind a closed queue there is an error
already. -/
theorem queueClosed_never {agent : String} (run : Run (.start setup signal) moves t) :
    t.firstError? ≠ some (.queueClosed agent) := by
  intro h
  refine firstError_induction (P := fun _ _ => False) ?_ (fun h _ => h) run h
  intro moves s m t run _ spotless horigin
  obtain ⟨full, next, delivery⟩ := delivery_of_run run
  cases horigin with
  | queueClosed running worker released =>
    obtain ⟨index, hindex⟩ := List.mem_iff_getElem?.1 worker
    obtain ⟨stopped, -⟩ := (register_of_run run).stopped hindex released spotless
    obtain ⟨closed, -⟩ := (delivery.served hindex).drained stopped
    exact running (closed_iff.1 closed)

theorem noAgents_never (run : Run (.start setup signal) moves t) :
    t.firstError? ≠ some .noAgents := by
  intro h
  refine firstError_induction (P := fun _ _ => False) ?_ (fun h _ => h) run h
  intro moves s m t _ _ _ horigin
  cases horigin

/-! ## The signal -/

theorem RaisedEarly.append (h : RaisedEarly setup signal moves) (more : List Move) :
    RaisedEarly setup signal (moves ++ more) := by
  rcases h with h | ⟨before, after, s, rfl, run, spotless⟩
  · exact .inl h
  · exact .inr ⟨before, after ++ more, s, by simp, run, spotless⟩

/-- A result is kept. -/
theorem Happens.result {s t : State} {m : Move} {r : Except RunError Summary} (h : Happens s m t)
    (result : s.supervisor.result = some r) : t.supervisor.result = some r := by
  cases h with
  | ingestion step => cases step <;> exact result
  | join busy | conclude busy => rw [busy] at result; cases result
  | worker | pass | raise => exact result

/-- The signal is raised from outside, by the first error or by the end of the run. -/
theorem Happens.raised {s t : State} {m : Move} (h : Happens s m t) (quiet : s.signal = false)
    (raised : t.signal = true) :
    m = .raise ∨ t.firstError? ≠ none ∨ t.supervisor.result ≠ none := by
  cases h with
  | ingestion step =>
    have same : t.signal = s.signal := by cases step <;> rfl
    rw [same, quiet] at raised; cases raised
  | worker | pass => exact absurd raised (by simpa [State.setWorker] using quiet)
  | @join e rest busy front =>
    right; left
    set heard := { s with ends := rest, supervisor.joined := s.supervisor.joined + 1 } with hheard
    have hsignal : heard.signal = false := quiet
    rcases join_eq heard e with ⟨supervisor, h⟩ | ⟨error, h⟩
    · rw [h] at raised; exact absurd raised (by simp [hsignal])
    · obtain ⟨log, hhear⟩ := hear_eq heard error
      rw [h, hhear]
      simp [State.firstError?]
  | conclude =>
    obtain ⟨log, h⟩ := conclude_eq s
    exact .inr (.inr (by simp [h]))
  | raise => exact .inl rfl

/-- While no task has failed and the run goes on, a signal that is raised was raised from outside.
-/
theorem raisedEarly_of_signal (run : Run (.start setup signal) moves t) (raised : t.signal = true)
    (spotless : t.firstError? = none) (busy : t.supervisor.result = none) :
    RaisedEarly setup signal moves := by
  induction run with
  | start => exact .inl raised
  | @next moves s m t run move ih =>
    have happens := happens_of_after move
    have hnone : s.firstError? = none := happens.spotless spotless
    have hbusy : s.supervisor.result = none := by
      cases hs : s.supervisor.result with
      | none => rfl
      | some r =>
        rw [happens.result hs] at busy
        cases busy
    cases hsignal : s.signal with
    | true => exact (ih hsignal hnone hbusy).append _
    | false =>
      rcases happens.raised hsignal raised with rfl | herror | hresult
      · exact .inr ⟨moves, [], s, rfl, run, hnone⟩
      · exact absurd spotless herror
      · exact absurd busy hresult

/-- A run was cancelled only because the signal was raised from outside before any task had failed.
-/
theorem raised_early (run : Run (.start setup signal) moves t)
    (h : t.firstError? = some .cancelled) : RaisedEarly setup signal moves := by
  refine firstError_induction (P := fun moves _ => RaisedEarly setup signal moves) ?_
    (fun h _ => h.append _) run h
  intro moves s m t run _ spotless horigin
  cases horigin with
  | cancelled raised busy =>
    have hresult := (register_of_run run).result_eq_none busy
    exact (raisedEarly_of_signal run raised spotless hresult).append _

end FirstError

/-! ## What a run returns -/

/-- What is to be seen of a run that has returned. -/
structure Return where
  result : Except RunError Summary
  /-- The calls that each agent got. -/
  calls : List (List Worker.Call)
  /-- What was not taken from the feed. -/
  feed : List Feed.Step
  signal : Bool

/-- A run returns, after some moves. -/
inductive Returns (setup : Setup) (signal : Bool) : List Move → Return → Prop
  | refused (unstarted : launch setup signal = .error .noAgents) :
    Returns setup signal [] ⟨.error .noAgents, [], setup.feed, signal⟩
  | ended {s moves t result} (launched : launch setup signal = .ok s) (run : Run s moves t)
      (finished : t.supervisor.result = some result) :
    Returns setup signal moves ⟨result, t.workers.map (·.calls), t.ingestion.feed, t.signal⟩

/-- One of the calls broke down. -/
def BrokeDown (setup : Setup) (left : Return) (reason : String) : Prop :=
  ∃ (index number : ℕ) (agent : Agent) (calls : List Worker.Call) (call : Worker.Call),
    setup.agents[index]? = some agent ∧ left.calls[index]? = some calls ∧
      calls[number]? = some call ∧
      (agent.respond number call.request).outcome setup.limit = .crash reason

/-- What brings about an error that a run returns. No run with agents returns that a queue was
closed or that there are no agents. -/
inductive Cause (setup : Setup) (signal : Bool) (moves : List Move) (left : Return) :
    RunError → Prop
  | feed {taken error} (failed : setup.feed = taken ++ .fail error :: left.feed)
      (first : ∀ step ∈ taken, step.failure? = none) : Cause setup signal moves left (.feed error)
  | crash {reason} (broke : BrokeDown setup left reason) :
    Cause setup signal moves left (.taskFailed reason)
  | signal (early : RaisedEarly setup signal moves) : Cause setup signal moves left .cancelled

/-- The result of a run names what ended it. -/
structure Explained (setup : Setup) (signal : Bool) (moves : List Move) (left : Return) : Prop where
  cause : ∀ {e}, left.result = .error e → Cause setup signal moves left e
  queueClosed : ∀ agent, left.result ≠ .error (.queueClosed agent)
  /-- Without a signal from outside, a failure and a breakdown the run ends well. -/
  well : signal = false → .raise ∉ moves → (∀ step ∈ setup.feed, step.failure? = none) →
    (∀ reason, ¬ BrokeDown setup left reason) → ∃ summary, left.result = .ok summary
  raised : left.signal = true

section Returns

variable {setup : Setup} {signal : Bool} {moves : List Move} {t : State}

/-- A worker that has broken down did so with a call to its agent. -/
theorem brokeDown_of_crashed {index : ℕ} {w : Worker} {reason : String} {left : Return}
    (crew : Crew setup t.workers) (calls : left.calls = t.workers.map (·.calls))
    (worker : t.workers[index]? = some w) (crashed : w.activity = .crashed reason) :
    BrokeDown setup left reason := by
  have hw := List.mem_of_getElem? worker
  obtain ⟨before, call, hcalls, houtcome⟩ := (crew.account w hw).broken crashed
  refine ⟨index, before.length, w.agent, w.calls, call, crew.agent worker, ?_, ?_, ?_⟩
  · rw [calls, List.getElem?_map, worker]; rfl
  · simp [hcalls]
  · rw [← crew.limit w hw]
    exact houtcome

/-- An error that a run returns is what brought it about. -/
theorem cause_of_run {e : RunError} {left : Return} (run : Run (.start setup signal) moves t)
    (first : t.firstError? = some e) (feed : left.feed = t.ingestion.feed)
    (calls : left.calls = t.workers.map (·.calls)) : Cause setup signal moves left e := by
  cases e with
  | feed error =>
    obtain ⟨taken, failed, flawless⟩ := feed_failed run first
    exact .feed (feed ▸ failed) flawless
  | cancelled => exact .signal (raised_early run first)
  | queueClosed agent => exact absurd first (queueClosed_never run)
  | taskFailed reason =>
    obtain ⟨index, w, worker, crashed⟩ := worker_crashed run first
    exact .crash (brokeDown_of_crashed (crew_of_run run) calls worker crashed)
  | noAgents => exact absurd first (noAgents_never run)

/-- Nothing brings about an error when there is no signal from outside, no failure and no
breakdown. -/
theorem Cause.absurd {e : RunError} {left : Return} (cause : Cause setup signal moves left e)
    (quiet : signal = false) (alone : .raise ∉ moves)
    (flawless : ∀ step ∈ setup.feed, step.failure? = none)
    (steady : ∀ reason, ¬ BrokeDown setup left reason) : False := by
  cases cause with
  | @feed taken error failed =>
    have hfail := flawless (.fail error) (by rw [failed]; simp)
    cases hfail
  | crash broke => exact steady _ broke
  | signal early =>
    rcases early with raised | ⟨before, after, s, rfl, -⟩
    · rw [quiet] at raised
      cases raised
    · simp at alone

theorem explained_of_run {result : Except RunError Summary}
    (run : Run (.start setup signal) moves t) (finished : t.supervisor.result = some result) :
    Explained setup signal moves ⟨result, t.workers.map (·.calls), t.ingestion.feed, t.signal⟩ := by
  have register := register_of_run run
  obtain ⟨names, -⟩ := register.result_eq finished
  constructor
  case cause => exact fun he => cause_of_run run (names.1 he) rfl rfl
  case queueClosed => exact fun agent he => queueClosed_never run (names.1 he)
  case well =>
    intro quiet alone flawless steady
    cases hresult : result with
    | ok summary => exact ⟨summary, rfl⟩
    | error e =>
      have first := names.1 hresult
      refine (Cause.absurd (cause_of_run run first ?_ ?_) quiet alone flawless steady).elim
      · rfl
      · rfl
  case raised => exact (register.result finished).1

end Returns

/-- The result of a run with agents names what ended it, and the signal is raised then. A run
without agents is refused and leaves the feed and the signal alone. A run whose feed comes to its
end without a failure gets to its result, and it ends well unless a call breaks down. -/
theorem result_names_cause (setup : Setup) (signal : Bool) :
    (∀ moves left, Returns setup signal moves left →
      (setup.agents = [] → moves = [] ∧ left = ⟨.error .noAgents, [], setup.feed, signal⟩) ∧
      (setup.agents ≠ [] → Explained setup signal moves left)) ∧
    (setup.agents = [] → Returns setup signal [] ⟨.error .noAgents, [], setup.feed, signal⟩) ∧
    (∀ s, launch setup false = .ok s → (∀ step ∈ setup.feed, step.flows = true) →
      Inevitable (fun t => ∃ moves left, .raise ∉ moves ∧ Returns setup false moves left ∧
        t.supervisor.result = some left.result ∧
        ((∀ reason, ¬ BrokeDown setup left reason) → ∃ summary, left.result = .ok summary)) s) := by
  refine ⟨?_, fun h => .refused (launch_noAgents h signal), ?_⟩
  · intro moves left returns
    cases returns with
    | refused unstarted =>
      refine ⟨fun _ => ⟨rfl, rfl⟩, fun h => ?_⟩
      rw [launch, if_neg (by simpa using h)] at unstarted
      split_ifs at unstarted
      cases unstarted
    | ended launched run finished =>
      obtain ⟨rfl, agents, -⟩ := launch_eq_ok launched
      exact ⟨fun h => absurd h agents, fun _ => explained_of_run run finished⟩
  · intro s launched flows
    obtain ⟨rfl, -, -⟩ := launch_eq_ok launched
    refine (inevitable_result .start (.inr (Feed.quiet_notMem flows))).mono ?_
    rintro t ⟨isSome, moves, run, calm⟩
    obtain ⟨result, finished⟩ := Option.isSome_iff_exists.1 isSome
    exact ⟨moves, _, calm, .ended launched run finished, finished,
      (explained_of_run run finished).well rfl calm
        fun step hstep => Feed.failure?_of_flows (flows step hstep)⟩

/-- Two agents, the first of which breaks down with its first call, so that ingestion finds its
queue closed. -/
def crashingSetup : Setup where
  name := defaultName
  capacity := 1
  limit := 50
  agents := [.scripted "a" [⟨5, .crash "overflow"⟩], .scripted "b" []]
  feed := [.item (.event plainEvent), .item (.event plainEvent), .item (.event plainEvent)]
  ids := toString

/-- How it ends. -/
def crashingEnd : State :=
  (State.start crashingSetup false).run none

theorem result_names_cause_crashingSetup :
    (∃ moves left, .raise ∉ moves ∧ Run (.start crashingSetup false) moves crashingEnd ∧
      .further (.queueClosed "a") ∈ crashingEnd.log ∧ Returns crashingSetup false moves left ∧
      left.result = .error (.taskFailed "overflow") ∧
      Explained crashingSetup false moves left) ∧
    Returns { crashingSetup with agents := [] } true []
      ⟨.error .noAgents, [], crashingSetup.feed, true⟩ ∧
    ∃ moves t, Run (.start crashingSetup false) moves t ∧ .raise ∉ moves ∧
      t.supervisor.result.isSome = true := by
  obtain ⟨moves, run, calm⟩ := run_runFrom none _ (.start crashingSetup false)
  have launched : launch crashingSetup false = .ok (.start crashingSetup false) := rfl
  have finished : crashingEnd.supervisor.result = some (.error (.taskFailed "overflow")) := rfl
  have returns := Returns.ended launched run finished
  have flows : ∀ step ∈ crashingSetup.feed, step.flows = true := by decide
  obtain ⟨explained, -, inevitable⟩ := result_names_cause crashingSetup false
  have explains := (explained _ _ returns).2 (by simp [crashingSetup])
  obtain ⟨more, t, run', calm', _, left, _, _, result, _⟩ := (inevitable _ launched flows).run
  refine ⟨⟨moves, _, calm rfl, run, by decide +kernel, returns, rfl, explains⟩, ?_, ?_⟩
  · exact (result_names_cause { crashingSetup with agents := [] } true).2.1 rfl
  · exact ⟨more, t, run', calm', by rw [result]; rfl⟩

end TxRelay.Relay
