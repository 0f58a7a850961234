import Mathlib.Tactic
import TxRelay.Proofs.Worker.Account
import TxRelay.Relay.Run

/-!
# Runs of a relay in any order

A move is one step of one task, the passing of time, or the raising of the signal from outside. A
run is any sequence of moves: nothing is said about the order in which tasks step, and time may pass
although a task could step. A poll of a task is a number of its steps in a row, so that what holds
along every run holds whatever the order in which tasks are polled. A feed that never ends is no
more than its parts in front: a run has only ever taken finitely many steps of it.

Results:
* `Run.keeps`: what every move keeps is kept by a run.
* `happens_of_after`: what a move can do, case by case.
* `run_poll`, `run_runFrom`: polls of tasks, and the runs that are carried out, are runs.
* `launch_of_agents`: a relay with agents is started if its queues can have their room.
-/

namespace TxRelay.Relay

/-- What can happen to a relay. -/
inductive Move where
  | task (task : Task)
  /-- Time passes up to a moment. -/
  | pass (moment : ℕ)
  /-- The signal is raised from outside. -/
  | raise
  deriving DecidableEq, Repr

namespace State

/-- The relay after a move, if the move can be made. -/
def after (s : State) : Move → Option State
  | .task task => s.step task
  | .pass moment => if s.now ≤ moment then some { s with now := moment } else none
  | .raise => some { s with signal := true }

/-- One poll of a task: it steps until it can only wait, or gives way after so many steps. -/
def poll (task : Task) : ℕ → State → State
  | 0, s => s
  | budget + 1, s =>
    match s.step task with
    | some next => poll task budget next
    | none => s

end State

/-- A relay gets from a state to another by moves. -/
inductive Run (s : State) : List Move → State → Prop
  | start : Run s [] s
  | next {moves t m u} (run : Run s moves t) (move : t.after m = some u) :
    Run s (moves ++ [m]) u

namespace Run

variable {s t u : State} {moves more : List Move}

/-- What every move keeps is kept by a run. -/
theorem keeps {P : State → Prop} (step : ∀ {t m u}, P t → t.after m = some u → P u)
    (run : Run s moves t) (h : P s) : P t := by
  induction run with
  | start => exact h
  | next _ move ih => exact step ih move

theorem single {m : Move} (move : s.after m = some t) : Run s [m] t :=
  .next .start move

theorem append (first : Run s moves t) (second : Run t more u) : Run s (moves ++ more) u := by
  induction second with
  | start => rw [List.append_nil]; exact first
  | next _ move ih => rw [← List.append_assoc]; exact .next ih move

end Run

/-- A relay that is started has agents, and its queues have room that queues can have. -/
theorem launch_eq_ok {setup : Setup} {signal : Bool} {s : State}
    (h : launch setup signal = .ok s) :
    s = .start setup signal ∧ setup.agents ≠ [] ∧ setup.room ≤ greatestRoom := by
  unfold launch at h
  split_ifs at h with hagents hroom
  cases h
  exact ⟨rfl, by simpa using hagents, by omega⟩

/-- There is always room for one request, so that only the capacity can be too great. -/
theorem greatestRoom_lt_room_iff {setup : Setup} :
    greatestRoom < setup.room ↔ greatestRoom < setup.capacity := by
  have least : ¬ greatestRoom < 1 := by decide
  rw [Setup.room, lt_max_iff, or_iff_left least]

/-- Whether a relay with agents is started is decided by the capacity of its queues. -/
theorem launch_of_agents {setup : Setup} (agents : setup.agents ≠ []) (signal : Bool) :
    launch setup signal =
      if greatestRoom < setup.capacity then .error .noRoom else .ok (.start setup signal) := by
  have served : ¬ setup.agents.isEmpty := by rwa [List.isEmpty_iff]
  rw [launch, if_neg served]
  exact if_congr greatestRoom_lt_room_iff rfl rfl

/-- The workers of a relay that is started have not begun. -/
theorem worker_start {setup : Setup} {signal : Bool} {index : ℕ} {w : Worker}
    (h : (State.start setup signal).workers[index]? = some w) :
    ∃ agent, setup.agents[index]? = some agent ∧ w = .fresh index agent setup.limit [] := by
  simp only [State.start, freshWorkers, List.getElem?_mapIdx, Option.map_eq_some_iff] at h
  obtain ⟨agent, hagent, hw⟩ := h
  exact ⟨agent, hagent, hw.symm⟩

/-! ## What a step does -/

@[simp] theorem start_activity (setup : Setup) (signal : Bool) :
    (State.start setup signal).ingestion.activity = .pulling := rfl

@[simp] theorem record_ingestion (s : State) (r : Record) :
    (s.record r).ingestion = s.ingestion := rfl

@[simp] theorem endIngestion_activity (s : State) (result : Except RunError Totals) :
    (s.endIngestion result).ingestion.activity = .ended := rfl

@[simp] theorem goOn_activity (s : State) (activity : Activity) (feed : List Feed.Step) :
    (s.goOn activity feed).ingestion.activity = activity := rfl

@[simp] theorem skip_activity (s : State) (error : ConversionError) :
    (s.skip error).ingestion.activity = s.ingestion.activity := rfl

@[simp] theorem tag_activity (s : State) (message : Message) :
    (s.tag message).ingestion.activity =
      .placing (Request.tag s.setup.ids s.ingestion.tagged.length message) 0 := rfl

@[simp] theorem push_activity (s : State) (request : Request) (index : ℕ) (w : Worker) :
    (s.push request index w).ingestion.activity = .placing request (index + 1) := rfl

/-- What a step of ingestion does. -/
inductive IngestionStep (s : State) : State → Prop
  | cancel (running : s.ingestion.activity ≠ .ended) (raised : s.signal = true) :
    IngestionStep s (s.endIngestion (.error .cancelled))
  | exhaust (ready : s.ingestion.activity = .pulling) (quiet : s.signal = false)
      (front : s.ingestion.feed = []) :
    IngestionStep s
      ((s.record
        (.exhausted s.ingestion.totals.received s.ingestion.totals.unconverted)).endIngestion
          (.ok s.ingestion.totals))
  | skip {item rest error} (ready : s.ingestion.activity = .pulling) (quiet : s.signal = false)
      (front : s.ingestion.feed = .item item :: rest) (bad : item.toMessage = .error error) :
    IngestionStep s ((s.goOn .pulling rest).skip error)
  | tag {item rest message} (ready : s.ingestion.activity = .pulling) (quiet : s.signal = false)
      (front : s.ingestion.feed = .item item :: rest) (good : item.toMessage = .ok message) :
    IngestionStep s ((s.goOn .pulling rest).tag message)
  | pause {duration rest} (ready : s.ingestion.activity = .pulling) (quiet : s.signal = false)
      (front : s.ingestion.feed = .pause duration :: rest) :
    IngestionStep s (s.goOn (.pausing (s.now + duration)) rest)
  | fail {error rest} (ready : s.ingestion.activity = .pulling) (quiet : s.signal = false)
      (front : s.ingestion.feed = .fail error :: rest) :
    IngestionStep s
      (((s.goOn .pulling rest).record (.feedFailed error)).endIngestion (.error (.feed error)))
  | resume {finish} (paused : s.ingestion.activity = .pausing finish) (quiet : s.signal = false)
      (due : finish ≤ s.now) :
    IngestionStep s (s.goOn .pulling s.ingestion.feed)
  | finish {request index} (placing : s.ingestion.activity = .placing request index)
      (done : s.workers.length ≤ index) :
    IngestionStep s (s.goOn .pulling s.ingestion.feed)
  | dead {request index w} (placing : s.ingestion.activity = .placing request index)
      (quiet : s.signal = false) (worker : s.workers[index]? = some w)
      (released : w.released = true) :
    IngestionStep s (s.endIngestion (.error (.queueClosed w.agent.address)))
  | push {request index w} (placing : s.ingestion.activity = .placing request index)
      (quiet : s.signal = false) (worker : s.workers[index]? = some w)
      (opened : w.released = false) (room : w.queue.length < s.setup.room) :
    IngestionStep s (s.push request index w)

theorem ingestionStep_of_pull {s t : State} (ready : s.ingestion.activity = .pulling)
    (quiet : s.signal = false) (h : s.pull = some t) : IngestionStep s t := by
  unfold State.pull at h
  split at h
  next front => cases h; exact .exhaust ready quiet front
  next item rest front =>
    cases h
    unfold State.take
    cases hm : item.toMessage with
    | error error => exact .skip ready quiet front hm
    | ok message => exact .tag ready quiet front hm
  next duration rest front => cases h; exact .pause ready quiet front
  next error rest front => cases h; exact .fail ready quiet front
  next => cases h

theorem ingestionStep_of_place {s t : State} {request : Request} {index : ℕ} {w : Worker}
    (placing : s.ingestion.activity = .placing request index) (quiet : s.signal = false)
    (worker : s.workers[index]? = some w) (h : s.place request index w = some t) :
    IngestionStep s t := by
  unfold State.place at h
  split_ifs at h with released room
  · cases h; exact .dead placing quiet worker released
  · cases h; exact .push placing quiet worker (by simpa using released) room

theorem ingestionStep_of_step {s t : State} (h : s.stepIngestion = some t) : IngestionStep s t := by
  unfold State.stepIngestion at h
  split at h
  next ready =>
    split_ifs at h with signal
    · cases h; exact .cancel (by simp [ready]) signal
    · exact ingestionStep_of_pull ready (by simpa using signal) h
  next finish paused =>
    split_ifs at h with signal due
    · cases h; exact .cancel (by simp [paused]) signal
    · cases h; exact .resume paused (by simpa using signal) due
  next request index placing =>
    split at h
    next done => cases h; exact .finish placing (List.getElem?_eq_none_iff.1 done)
    next w worker =>
      split_ifs at h with signal
      · cases h; exact .cancel (by simp [placing]) signal
      · exact ingestionStep_of_place placing (by simpa using signal) worker h
  next => cases h

/-- What a move does. -/
inductive Happens (s : State) : Move → State → Prop
  | ingestion {t} (step : IngestionStep s t) : Happens s (.task .ingestion) t
  | worker {index w next} (worker : s.workers[index]? = some w)
      (step : w.Step s.now s.signal s.closed next) :
    Happens s (.task (.worker index)) (s.setWorker index next)
  | join {e rest} (busy : s.supervisor.result = none) (front : s.ends = e :: rest) :
    Happens s (.task .supervisor)
      ({ s with ends := rest, supervisor.joined := s.supervisor.joined + 1 }.join e)
  | conclude (busy : s.supervisor.result = none) (front : s.ends = [])
      (all : s.supervisor.joined = s.taskCount) :
    Happens s (.task .supervisor) s.conclude
  | pass {moment} (later : s.now ≤ moment) : Happens s (.pass moment) { s with now := moment }
  | raise : Happens s .raise { s with signal := true }

theorem happens_of_stepSupervisor {s t : State} (h : s.stepSupervisor = some t) :
    Happens s (.task .supervisor) t := by
  unfold State.stepSupervisor at h
  split at h
  next => cases h
  next busy =>
    split at h
    next e rest front => cases h; exact .join busy front
    next front =>
      split_ifs at h with all
      cases h; exact .conclude busy front all

/-- What a move can do, case by case. -/
theorem happens_of_after {s t : State} {m : Move} (h : s.after m = some t) : Happens s m t := by
  cases m with
  | task task =>
    cases task with
    | ingestion => exact .ingestion (ingestionStep_of_step h)
    | worker index =>
      obtain ⟨w, next, worker, step, rfl⟩ := State.stepWorker_eq h
      exact .worker worker (Worker.step_cases step)
    | supervisor => exact happens_of_stepSupervisor h
  | pass moment =>
    simp only [State.after] at h
    split_ifs at h with later
    cases h; exact .pass later
  | raise => cases h; exact .raise

/-! ## What a move leaves alone -/

/-- What the supervisor finds when it has heard of every task. -/
def Supervisor.verdict (s : Supervisor) : Except RunError Summary :=
  match s.error with
  | some error => .error error
  | none => .ok ⟨s.totals, s.workers.filterMap id⟩

/-- The first error is kept and raises the signal. -/
theorem hear_eq (s : State) (e : RunError) :
    ∃ log, s.hear e =
      { s with
        signal := s.signal || s.supervisor.error.isNone
        log
        supervisor.error := s.supervisor.error.or (some e) } := by
  refine ⟨(s.hear e).log, ?_⟩
  unfold State.hear
  cases h : s.supervisor.error with
  | none => simp [State.record]
  | some first =>
    simp only [State.record, Option.isNone_some, Bool.or_false, Option.some_or]
    rw [← h]

theorem conclude_eq (s : State) :
    ∃ log, s.conclude =
      { s with signal := true, log, supervisor.result := some s.supervisor.verdict } := by
  simp only [State.conclude, Supervisor.verdict]
  cases s.supervisor.error with
  | none => exact ⟨_, rfl⟩
  | some error => exact ⟨_, rfl⟩

@[simp] theorem hear_setup (s : State) (e : RunError) : (s.hear e).setup = s.setup := by
  obtain ⟨_, h⟩ := hear_eq s e
  rw [h]

@[simp] theorem hear_now (s : State) (e : RunError) : (s.hear e).now = s.now := by
  obtain ⟨_, h⟩ := hear_eq s e
  rw [h]

@[simp] theorem hear_ingestion (s : State) (e : RunError) :
    (s.hear e).ingestion = s.ingestion := by
  obtain ⟨_, h⟩ := hear_eq s e
  rw [h]

@[simp] theorem hear_workers (s : State) (e : RunError) : (s.hear e).workers = s.workers := by
  obtain ⟨_, h⟩ := hear_eq s e
  rw [h]

@[simp] theorem hear_ends (s : State) (e : RunError) : (s.hear e).ends = s.ends := by
  obtain ⟨_, h⟩ := hear_eq s e
  rw [h]

theorem join_eq (s : State) (e : TaskEnd) :
    (∃ supervisor, s.join e = { s with supervisor }) ∨ ∃ error, s.join e = s.hear error := by
  cases e with
  | ingestion result =>
    cases result with
    | ok => exact .inl ⟨_, rfl⟩
    | error error => exact .inr ⟨error, rfl⟩
  | worker index result =>
    cases result with
    | ok => exact .inl ⟨_, rfl⟩
    | error error => exact .inr ⟨error, rfl⟩

@[simp] theorem join_setup (s : State) (e : TaskEnd) : (s.join e).setup = s.setup := by
  rcases join_eq s e with ⟨supervisor, h⟩ | ⟨error, h⟩ <;> simp [h]

@[simp] theorem join_now (s : State) (e : TaskEnd) : (s.join e).now = s.now := by
  rcases join_eq s e with ⟨supervisor, h⟩ | ⟨error, h⟩ <;> simp [h]

@[simp] theorem join_ingestion (s : State) (e : TaskEnd) :
    (s.join e).ingestion = s.ingestion := by
  rcases join_eq s e with ⟨supervisor, h⟩ | ⟨error, h⟩ <;> simp [h]

@[simp] theorem join_workers (s : State) (e : TaskEnd) : (s.join e).workers = s.workers := by
  rcases join_eq s e with ⟨supervisor, h⟩ | ⟨error, h⟩ <;> simp [h]

@[simp] theorem join_ends (s : State) (e : TaskEnd) : (s.join e).ends = s.ends := by
  rcases join_eq s e with ⟨supervisor, h⟩ | ⟨error, h⟩ <;> simp [h]

@[simp] theorem conclude_setup (s : State) : s.conclude.setup = s.setup := by
  obtain ⟨_, h⟩ := conclude_eq s
  rw [h]

@[simp] theorem conclude_now (s : State) : s.conclude.now = s.now := by
  obtain ⟨_, h⟩ := conclude_eq s
  rw [h]

@[simp] theorem conclude_ingestion (s : State) : s.conclude.ingestion = s.ingestion := by
  obtain ⟨_, h⟩ := conclude_eq s
  rw [h]

@[simp] theorem conclude_workers (s : State) : s.conclude.workers = s.workers := by
  obtain ⟨_, h⟩ := conclude_eq s
  rw [h]

@[simp] theorem conclude_ends (s : State) : s.conclude.ends = s.ends := by
  obtain ⟨_, h⟩ := conclude_eq s
  rw [h]

theorem IngestionStep.setup {s t : State} (h : IngestionStep s t) : t.setup = s.setup := by
  cases h <;> rfl

theorem Happens.setup {s t : State} {m : Move} (h : Happens s m t) : t.setup = s.setup := by
  cases h with
  | ingestion step => exact step.setup
  | join => simp
  | conclude => simp
  | worker | pass | raise => rfl

theorem Run.setup {s t : State} {moves : List Move} (run : Run s moves t) : t.setup = s.setup := by
  induction run with
  | start => rfl
  | next _ move ih => rw [(happens_of_after move).setup, ih]

/-- The signal stays raised. -/
theorem Happens.signal {s t : State} {m : Move} (h : Happens s m t) (raised : s.signal = true) :
    t.signal = true := by
  cases h with
  | ingestion step => cases step <;> exact raised
  | @join e rest =>
    rcases join_eq { s with ends := rest, supervisor.joined := s.supervisor.joined + 1 } e with
      ⟨supervisor, h⟩ | ⟨error, h⟩
    · rw [h]; exact raised
    · obtain ⟨log, hhear⟩ := hear_eq
        { s with ends := rest, supervisor.joined := s.supervisor.joined + 1 } error
      rw [h, hhear, raised, Bool.true_or]
  | conclude =>
    obtain ⟨log, h⟩ := conclude_eq s
    rw [h]
  | worker | pass => exact raised
  | raise => rfl

theorem Run.signal {s t : State} {moves : List Move} (run : Run s moves t)
    (raised : s.signal = true) : t.signal = true :=
  run.keeps (P := fun t => t.signal = true) (fun h move => (happens_of_after move).signal h) raised

/-- A feed is taken from the front. -/
theorem Happens.feed {s t : State} {m : Move} (h : Happens s m t) :
    t.ingestion.feed <:+ s.ingestion.feed := by
  cases h with
  | ingestion step =>
    cases step with
    | skip _ _ front | tag _ _ front | pause _ _ front | fail _ _ front =>
      rw [front]; exact List.suffix_cons _ _
    | cancel | exhaust | resume | finish | dead | push => exact List.suffix_rfl
  | join => rw [join_ingestion]
  | conclude => rw [conclude_ingestion]
  | worker | pass | raise => exact List.suffix_rfl

theorem Run.feed {s t : State} {moves : List Move} (run : Run s moves t) :
    t.ingestion.feed <:+ s.ingestion.feed :=
  run.keeps (P := fun t => t.ingestion.feed <:+ s.ingestion.feed)
    (fun h move => (happens_of_after move).feed.trans h) List.suffix_rfl

/-! ## What stays -/

theorem closed_iff {s : State} : s.closed = true ↔ s.ingestion.activity = .ended := by
  simp [State.closed]

theorem closed_eq_false {s : State} (h : s.ingestion.activity ≠ .ended) : s.closed = false := by
  simp [State.closed, h]

/-- Only ingestion that has not ended takes a step. -/
theorem IngestionStep.running {s t : State} (h : IngestionStep s t) :
    s.ingestion.activity ≠ .ended := by
  cases h with
  | cancel running => exact running
  | exhaust ready | skip ready | tag ready | pause ready | fail ready => simp [ready]
  | resume paused => simp [paused]
  | finish placing | dead placing | push placing => simp [placing]

/-- Ingestion that has ended stays as it is. -/
theorem Happens.ended {s t : State} {m : Move} (h : Happens s m t)
    (ended : s.ingestion.activity = .ended) : t.ingestion = s.ingestion := by
  cases h with
  | ingestion step => exact absurd ended step.running
  | join => exact join_ingestion _ _
  | conclude => exact conclude_ingestion _
  | worker | pass | raise => rfl

/-- A worker that has ended stays as it is. -/
theorem Happens.released {s t : State} {m : Move} {index : ℕ} {w : Worker} (h : Happens s m t)
    (worker : s.workers[index]? = some w) (released : w.released = true) :
    t.workers[index]? = some w := by
  have other {v : Worker} {i : ℕ} (hv : s.workers[i]? = some v) (opened : v.released = false)
      (next : Worker) : (s.workers.set i next)[index]? = some w := by
    have hne : i ≠ index := by
      rintro rfl
      obtain rfl : w = v := Option.some.inj (worker.symm.trans hv)
      rw [opened] at released; cases released
    rw [List.getElem?_set_ne hne, worker]
  cases h with
  | ingestion step =>
    cases step with
    | push placing quiet hv opened room => exact other hv opened _
    | cancel | exhaust | skip | tag | pause | fail | resume | finish | dead => exact worker
  | worker hv step => exact other hv step.opened _
  | join => rw [join_workers]; exact worker
  | conclude => rw [conclude_workers]; exact worker
  | pass | raise => exact worker

/-! ## Polls, and the runs that are carried out -/

theorem run_poll (task : Task) (budget : ℕ) (s : State) :
    ∃ count, Run s (List.replicate count (.task task)) (s.poll task budget) := by
  induction budget generalizing s with
  | zero => exact ⟨0, .start⟩
  | succ budget ih =>
    rw [State.poll]
    cases h : s.step task with
    | none => exact ⟨0, .start⟩
    | some next =>
      obtain ⟨count, run⟩ := ih next
      exact ⟨count + 1, (Run.single (m := .task task) h).append run⟩

theorem run_passTo {s : State} {moment : ℕ} (later : s.now ≤ moment) (signalAt : Option ℕ) :
    ∃ moves, Run s moves (s.passTo signalAt moment) ∧ (signalAt = none → .raise ∉ moves) := by
  have pass : s.after (.pass moment) = some { s with now := moment } := by
    rw [State.after, if_pos later]
  cases raised : Worker.raisedBy signalAt moment with
  | false =>
    refine ⟨[.pass moment], ?_, by simp⟩
    have : s.passTo signalAt moment = { s with now := moment } := by simp [State.passTo, raised]
    exact this ▸ .single pass
  | true =>
    refine ⟨[.pass moment, .raise], ?_, ?_⟩
    · have : s.passTo signalAt moment = { s with now := moment, signal := true } := by
        simp [State.passTo, raised]
      exact this ▸ .next (.single pass) rfl
    · rintro rfl
      cases raised

theorem now_lt_of_nextMoment {now moment : ℕ} {moments : List (Option ℕ)}
    (h : nextMoment now moments = some moment) : now < moment := by
  have hmem := List.min?_mem h
  simp only [List.mem_filterMap, Option.filter_eq_some_iff, decide_eq_true_eq] at hmem
  obtain ⟨_, _, _, hlt⟩ := hmem
  exact hlt

/-- The runs that are carried out are runs; without a moment for it the signal is not raised from
outside. -/
theorem run_runFrom (signalAt : Option ℕ) (fuel : ℕ) (s : State) :
    ∃ moves, Run s moves (s.runFrom signalAt fuel) ∧ (signalAt = none → .raise ∉ moves) := by
  induction fuel generalizing s with
  | zero => exact ⟨[], .start, by simp⟩
  | succ fuel ih =>
    rw [State.runFrom]
    split
    next next hmove =>
      obtain ⟨task, -, step⟩ := List.exists_of_findSome?_eq_some hmove
      obtain ⟨moves, run, calm⟩ := ih next
      refine ⟨.task task :: moves, (Run.single (m := .task task) step).append run, fun h => ?_⟩
      simpa using calm h
    next =>
      split_ifs with done
      · exact ⟨[], .start, by simp⟩
      split
      next moment hnext =>
        obtain ⟨first, run₁, calm₁⟩ := run_passTo (now_lt_of_nextMoment hnext).le signalAt
        obtain ⟨second, run₂, calm₂⟩ := ih (s.passTo signalAt moment)
        refine ⟨first ++ second, run₁.append run₂, fun h => ?_⟩
        simp [calm₁ h, calm₂ h]
      next => exact ⟨[], .start, by simp⟩

end TxRelay.Relay
