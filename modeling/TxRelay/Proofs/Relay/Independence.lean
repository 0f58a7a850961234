import TxRelay.Proofs.Relay.Aftermath
import TxRelay.Proofs.Relay.Fanout

/-!
# The order of steps does not show

As long as nothing comes from outside, the steps of ingestion and the workers come to the same in any
order. What comes from outside, the signal or a failure of the feed, finds the relay in a state that
does not depend on the order either, if it does not fall together with anything else; and what follows
does not, but for one thing. When the feed fails, its queue is closed to a worker and the signal is
about to be raised. A worker that waits for a request then sees the one or the other first, stops
without an error or as one that was cancelled, and says so in its last record.

Results:
* `turns_begun`: workers at rest begin without a change to anything else.
* `finale_of_run`: how a run ends, by the state to which it came without anything from outside.
* `schedule_independent`: two runs of a relay give the same answer.
* `failure_shows_order`: but not when the feed fails, for a worker that waits.
-/

namespace TxRelay

namespace Worker

/-- The record, but for whether the worker was cancelled. -/
def Record.unflagged : Record → Record
  | .ended counts _ => .ended counts false
  | record => record

/-- The worker, but for whether it was cancelled. -/
def unflagged (w : Worker) : Worker :=
  { w with
    activity :=
      match w.activity with
      | .stopped _ => .stopped false
      | activity => activity
    log := w.log.map Record.unflagged }

/-- A worker that stops is the same, whatever it stops for, but for what it says of that. -/
theorem unflagged_stop (w : Worker) (cancelled : Bool) :
    (w.stop cancelled).unflagged = (w.stop false).unflagged := by
  simp [Worker.unflagged, Worker.stop, Worker.farewell, Record.unflagged]

end Worker

namespace Relay

/-! ## Alone in its moment -/

/-- The moves in virtual time when nothing that comes from outside falls together with anything else:
the feed fails while all workers are at rest, and the signal is raised when no task can step. -/
structure Apart (signalAt : Option ℕ) (s : State) (m : Move) : Prop where
  prompt : Prompt signalAt s m
  failure : m = .task .ingestion → s.failing = true → ∀ w ∈ s.workers, w.atRest s.now = true
  signal : m = .raise → s.move? = none

/-- With this something has come from outside, or the run has a result. -/
inductive Break (s : State) : Move → State → Prop
  | failure {t} (failing : s.failing = true) (step : IngestionStep s t) :
    Break s (.task .ingestion) t
  | conclude (busy : s.supervisor.result = none) (all : s.supervisor.joined = s.taskCount) :
    Break s (.task .supervisor) s.conclude
  | raise : Break s .raise { s with signal := true }

section Break

variable {s t : State} {m : Move} {signalAt : Option ℕ}

/-- A task that ends well brings no error. -/
theorem spotless_of_ends {new : List TaskEnd} (spotless : s.firstError? = none)
    (ends : t.ends = s.ends ++ new) (same : t.supervisor.error = s.supervisor.error)
    (ok : new.findSome? TaskEnd.error? = none) : t.firstError? = none := by
  rw [firstError_of_ends ends same, spotless, ok]
  rfl

/-- While the feed does not fail, ingestion raises no signal and ends without an error. -/
theorem IngestionStep.pristine (step : IngestionStep s t) (pristine : Pristine s) (sound : Sound s)
    (flawless : s.failing = false) : Pristine t := by
  have running := step.running
  obtain ⟨quiet, spotless⟩ := pristine
  cases step with
  | cancel _ raised => rw [quiet] at raised; cases raised
  | fail ready _ front =>
    rw [failing_iff.2 ⟨quiet, ready, _, _, front⟩] at flawless
    cases flawless
  | dead placing _ worker released =>
    rw [sound.opened quiet running (List.mem_of_getElem? worker)] at released
    cases released
  | exhaust => exact ⟨quiet, spotless_of_ends spotless rfl rfl rfl⟩
  | skip | tag | pause | resume | finish | push => exact ⟨quiet, spotless⟩

/-- A run that has a result has raised the signal. -/
theorem Pristine.result_eq_none (h : Pristine s) (register : Register s) :
    s.supervisor.result = none := by
  cases hresult : s.supervisor.result with
  | none => rfl
  | some result =>
    obtain ⟨raised, -⟩ := register.result hresult
    rw [h.quiet] at raised
    cases raised

/-- Only such a move raises the signal or brings the first error. -/
theorem Happens.breaks (move : Happens s m t) (pristine : Pristine s) (sound : Sound s)
    (whole : t.Whole) (broken : ¬ Pristine t) : Break s m t := by
  have quiet := pristine.quiet
  have spotless := pristine.spotless
  cases move with
  | ingestion step =>
    refine .failure ?_ step
    by_contra flawless
    exact broken (step.pristine pristine sound (by simpa using flawless))
  | @worker index w next worker step =>
    refine absurd ⟨quiet, spotless_of_ends spotless rfl rfl ?_⟩ broken
    rcases workerEnds_cases index step with
      ⟨-, ends⟩ | ⟨-, raised, -⟩ | ⟨-, ends⟩ | ⟨reason, crashed, -⟩
    · rw [ends]; rfl
    · rw [quiet] at raised; cases raised
    · rw [ends]; rfl
    · have hnext := List.mem_set (List.getElem?_eq_some_iff.1 worker).1 next
      exact absurd crashed (whole next hnext reason)
  | @join e rest busy front =>
    have ok := ok_of_spotless spotless front
    refine absurd ⟨?_, (firstError_join front _).trans spotless⟩ broken
    obtain ⟨supervisor, hjoin⟩ := join_of_ok
      { s with ends := rest, supervisor.joined := s.supervisor.joined + 1 } ok
    rw [hjoin]
    exact quiet
  | conclude busy front all => exact .conclude busy all
  | pass => exact absurd ⟨quiet, spotless⟩ broken
  | raise => exact .raise

/-- A run that has a result is over. -/
theorem after_of_result (register : Register s) (ended : s.supervisor.result.isSome = true)
    (allowed : Prompt signalAt s m) : s.after m = none := by
  obtain ⟨result, hresult⟩ := Option.isSome_iff_exists.1 ended
  obtain ⟨raised, -, all, -⟩ := register.result hresult
  obtain ⟨-, closed, released⟩ := register.all_ended all
  by_contra moves
  obtain ⟨t, move⟩ := Option.ne_none_iff_exists'.1 moves
  cases happens_of_after move with
  | ingestion step => exact step.running (closed_iff.1 closed)
  | worker worker step =>
    have opened := step.opened
    rw [released _ (List.mem_of_getElem? worker)] at opened
    cases opened
  | join busy => rw [hresult] at busy; cases busy
  | conclude busy => rw [hresult] at busy; cases busy
  | pass =>
    obtain ⟨-, busy, -⟩ := allowed
    rw [hresult] at busy
    cases busy
  | raise =>
    obtain ⟨-, quiet⟩ := allowed
    rw [raised] at quiet
    cases quiet

theorem eq_of_result {moves : List Move} (register : Register s)
    (ended : s.supervisor.result.isSome = true) (run : RunBy (Prompt signalAt) s moves t) :
    t = s := by
  induction run with
  | start => rfl
  | next _ allowed move ih =>
    subst ih
    rw [after_of_result register ended allowed] at move
    cases move

end Break

/-! ## Where nothing goes on any more -/

/-- The relay when all workers have begun. -/
def State.begun (s : State) : State :=
  { s with workers := s.workers.map Worker.awake }

section Last

variable {s t : State} {signalAt : Option ℕ}

/-- The workers begin one after the other. -/
theorem turns_begun (quiet : s.signal = false) (sound : Sound s) :
    Relation.ReflTransGen (Turn signalAt) s.bare s.begun.bare := by
  generalize idle : s.workers.countP (fun w => w.activity = .idle) = count
  induction count generalizing s with
  | zero =>
    have same : s.workers.map Worker.awake = s.workers.map id := by
      refine List.map_congr_left fun w hw => Worker.awake_eq ?_
      simpa using List.countP_eq_zero.1 idle w hw
    rw [State.begun, same, List.map_id]
  | succ count ih =>
    have some : 0 < s.workers.countP fun w => w.activity = .idle := by omega
    obtain ⟨w, hw, fresh⟩ := List.countP_pos_iff.1 some
    have fresh : w.activity = .idle := of_decide_eq_true fresh
    obtain ⟨index, worker⟩ := List.mem_iff_getElem?.1 hw
    obtain ⟨hindex, hget⟩ := List.getElem?_eq_some_iff.1 worker
    have turn : Turn signalAt s (s.setWorker index w.begin).bare :=
      ⟨quiet, sound, .worker worker (.begin fresh) (Worker.whole_of_opened rfl)⟩
    have begun : (s.setWorker index w.begin).begun.bare = s.begun.bare := by
      have same : w.begin.awake = w.awake := by
        rw [Worker.awake_eq (w := w.begin) nofun, Worker.awake, fresh]
      have workers : (s.workers.set index w.begin).map Worker.awake = s.workers.map Worker.awake := by
        rw [List.map_set, same]
        refine (congrArg _ ?_).trans (List.set_getElem_self (by simpa using hindex))
        rw [List.getElem_map, hget]
      simp [State.begun, State.setWorker, State.bare, workers]
    have fewer : (s.setWorker index w.begin).workers.countP (fun w => w.activity = .idle) = count := by
      rw [State.setWorker, List.countP_set hindex, idle, hget]
      simp [fresh, Worker.begin]
    have further := ih (s := (s.setWorker index w.begin)) turn.keeps.1
      (sound.workerStep (.begin fresh) (Worker.whole_of_opened rfl) index) fewer
    rw [begun] at further
    exact .head turn.bare further

/-- When the feed is about to fail and all workers are at rest, nothing goes on once they have begun.
-/
theorem last_of_failing (failing : s.failing = true)
    (atRest : ∀ w ∈ s.workers, w.atRest s.now = true) (t : State) :
    ¬ Turn signalAt s.begun.bare t := by
  obtain ⟨quiet, ready, error, rest, front⟩ := failing_iff.1 failing
  have opened : s.closed = false := closed_eq_false (by simp [ready])
  rintro ⟨-, -, act⟩
  cases act with
  | ingestion flawless =>
    have : s.failing = false := flawless
    rw [failing] at this
    cases this
  | worker worker step =>
    obtain ⟨w, hw, rfl⟩ := List.mem_map.1 (List.mem_of_getElem? worker)
    have step : w.awake.Step s.now s.signal s.closed _ := step
    rw [quiet, opened] at step
    exact Worker.stuck_of_atRest (atRest w hw) step
  | pass still => exact still.ingestion _ (.fail ready quiet front)

/-- When no task can step and the signal is due, nothing goes on before it is raised. -/
theorem last_of_due (still : s.Still) (due : s.Due signalAt) (t : State) :
    ¬ Turn signalAt s t := by
  rintro ⟨-, -, act⟩
  cases act with
  | ingestion _ step => exact still.ingestion _ step
  | worker worker step => exact still.worker worker step
  | pass _ _ undue => exact undue due

/-- When the supervisor has heard of as many ends as there are tasks, no other task is left. -/
theorem idle_of_all (register : Register s) (all : s.supervisor.joined = s.taskCount) :
    ¬ s.Busy := by
  obtain ⟨-, closed, released⟩ := register.all_ended all
  rintro (opened | ⟨w, hw, opened⟩)
  · rw [closed] at opened; cases opened
  · rw [released w hw] at opened; cases opened

/-- When every task but the supervisor has ended, nothing goes on. -/
theorem last_of_idle (idle : ¬ s.Busy) (t : State) : ¬ Turn signalAt s t := by
  rintro ⟨-, -, act⟩
  cases act with
  | ingestion _ step => exact idle (.inl (closed_eq_false step.running))
  | worker worker step => exact idle (.inr ⟨_, List.mem_of_getElem? worker, step.opened⟩)
  | pass _ busy => exact idle busy

end Last

/-! ## How a run ends -/

/-- How a run has ended, by the state to which it came without anything from outside. -/
inductive Finale (start : State) (moves : List Move) (b t : State) : Prop
  /-- Every task has ended well. -/
  | concluded (idle : ¬ b.Busy) (workers : t.workers = b.workers) (now : t.now = b.now)
      (log : t.log = b.log ++ [.finished b.setup.name b.ingestion.totals])
      (result : t.supervisor.result =
        some (.ok ⟨b.ingestion.totals, b.workers.map Worker.stats⟩))
  /-- The signal was raised from outside. -/
  | halted (still : b.Still) (busy : b.Busy) (halted : Halted b t)
  /-- The feed failed. -/
  | fallen {before after r error rest} (cut : moves = before ++ .task .ingestion :: after)
      (first : Run start before r) (failing : r.failing = true)
      (opened : ∀ w ∈ r.workers, w.released = false)
      (front : r.ingestion.feed = .fail error :: rest) (same : b = r.begun.bare)
      (fallen : Fallen r error t)

section Finale

variable {setup : Setup} {signalAt : Option ℕ} {moves before after : List Move} {s t v : State}

/-- Workers that begin change nothing for what a failure of the feed comes to. -/
theorem Fallen.begun {error : FeedError} (h : Fallen s error t) : Fallen s.begun.bare error t where
  length := h.length.trans (List.length_map _).symm
  workers {index v} worker := by
    obtain ⟨w, hw, rfl⟩ := Option.map_eq_some_iff.1 (List.getElem?_map.symm.trans worker)
    obtain ⟨v, hv, ends⟩ := h.workers hw
    simp only [Worker.wound_awake, Worker.awake_deadline?, Worker.awake_awake]
    exact ⟨v, hv, ends⟩
  moment := by
    obtain ⟨now, calls, least⟩ := h.moment
    refine ⟨now, fun v hv finish deadline => ?_, least.imp_right ?_⟩
    · obtain ⟨w, hw, rfl⟩ := List.mem_map.1 hv
      exact calls w hw (w.awake_deadline?.symm.trans deadline)
    · rintro ⟨w, hw, finish, deadline, le⟩
      exact ⟨w.awake, List.mem_map_of_mem hw, finish, w.awake_deadline?.trans deadline, le⟩
  log := h.log
  result := h.result

/-- The end of a run whose tasks have all ended well. -/
theorem conclude_of_pristine (pristine : Pristine s)
    (concluded : Run (.start setup false) moves s.conclude) :
    s.conclude.log = s.log ++ [.finished s.setup.name s.ingestion.totals] ∧
      s.conclude.supervisor.result =
        some (.ok ⟨s.ingestion.totals, s.workers.map Worker.stats⟩) := by
  have noError : s.supervisor.error = none := (unheard_of_spotless pristine.spotless).1
  obtain ⟨log, hconclude⟩ := conclude_eq s
  have verdict : s.conclude.supervisor.result = some s.supervisor.verdict := by rw [hconclude]
  have spotless : s.conclude.firstError? = none := by
    rw [hconclude]
    exact pristine.spotless
  have summary := (register_of_run concluded).summary_eq verdict spotless
  rw [conclude_ingestion, conclude_workers] at summary
  refine ⟨?_, by rw [verdict, summary]⟩
  rw [Supervisor.verdict, noError] at summary
  simp only [Except.ok.injEq, Summary.mk.injEq] at summary
  rw [← summary.1]
  simp [State.conclude, State.record, noError]

/-- How a run ends, by the state to which it came without anything from outside. That is one in which
nothing goes on any more. -/
theorem finale_of_run (run : RunBy (Apart signalAt) (.start setup false) moves t)
    (ended : t.supervisor.result.isSome = true) (whole : t.Whole) :
    ∃ b, Relation.ReflTransGen (Turn signalAt) (State.start setup false).bare b ∧
      (∀ v, ¬ Turn signalAt b v) ∧ Finale (.start setup false) moves b t := by
  have finished : ¬ Pristine t := by
    intro pristine
    rw [pristine.result_eq_none (register_of_run run.run)] at ended
    cases ended
  -- the run is cut at the first move with which something comes from outside, or with which it ends
  obtain ⟨before, m, after, s, v, cut, first, pristine, apart, move, broken, rest⟩ :=
    run.cut (P := Pristine) ⟨rfl, rfl⟩ finished
  have prompt : RunBy (Prompt signalAt) (.start setup false) before s :=
    first.mono fun _ _ h => h.prompt
  have rest : RunBy (Prompt signalAt) v after t := rest.mono fun _ _ h => h.prompt
  have turns := turns_of_run prompt pristine
  have register := register_of_run first.run
  have sound := sound_of_run first.run (whole_of_spotless register pristine.spotless)
  have onward := first.run.next move
  cases (happens_of_after move).breaks pristine sound (whole_of_run rest.run whole) broken with
  | failure failing =>
    obtain ⟨quiet, ready, error, left, front⟩ := failing_iff.1 failing
    have atRest := apart.failure rfl failing
    -- workers may have begun or not when the feed fails, so the state is compared after they have
    refine ⟨s.begun.bare, turns.trans (turns_begun quiet sound), last_of_failing failing atRest, ?_⟩
    have fails : FailsAtRest setup false s error v :=
      ⟨⟨before, first.run⟩, pristine, ready, ⟨left, front⟩, move, atRest⟩
    exact .fallen cut first.run failing fails.opened front rfl (fallen_of_run fails rest ended whole)
  | conclude busy all =>
    have isSome : s.conclude.supervisor.result.isSome = true := by
      obtain ⟨log, hconclude⟩ := conclude_eq s
      rw [hconclude]
      rfl
    obtain rfl := eq_of_result (register_of_run onward) isSome rest
    have idle : ¬ s.Busy := idle_of_all register all
    obtain ⟨log, result⟩ := conclude_of_pristine pristine onward
    exact ⟨s.bare, turns, last_of_idle (s := s.bare) idle,
      .concluded idle (conclude_workers s) (conclude_now s) log result⟩
  | raise =>
    have stuck := apart.signal rfl
    have due : s.Due signalAt := apart.prompt
    have still : s.bare.Still := Still.bare (still_of_move? pristine.quiet stuck)
    have busy : s.Busy := busy_of_stuck register (pristine.result_eq_none register)
      (step_of_move? stuck .supervisor)
    obtain ⟨workers, ⟨now, calls, least⟩, log, result⟩ :=
      halted_of_run onward rfl pristine.spotless busy rest ended whole
    exact ⟨s.bare, turns, last_of_due still due,
      .halted still busy ⟨workers, ⟨now, calls, least⟩, log, result⟩⟩

end Finale

/-! ## The same answer -/

/-- Two runs have given the same answer, but for whether workers that stopped were cancelled. -/
structure SameAnswer (t u : State) : Prop where
  result : t.supervisor.result = u.supervisor.result
  finished : t.now = u.now
  calls : t.workers.map (·.calls) = u.workers.map (·.calls)
  /-- What else a worker has come to, with its counts and its log, is the same, too. -/
  workers : t.workers.map Worker.unflagged = u.workers.map Worker.unflagged
  /-- But for the errors after the first, the supervisor has logged the same. -/
  log : t.log.filter (· ≠ .further .cancelled) = u.log.filter (· ≠ .further .cancelled)
  /-- If the same workers were cancelled, it has logged the same. -/
  logs : t.workers = u.workers → t.log = u.log

section SameAnswer

variable {setup : Setup} {signal : Bool} {signalAt : Option ℕ} {moves more : List Move}
  {b t u : State}

theorem SameAnswer.of_workers_log (result : t.supervisor.result = u.supervisor.result)
    (finished : t.now = u.now) (workers : t.workers = u.workers) (log : t.log = u.log) :
    SameAnswer t u :=
  ⟨result, finished, by rw [workers], by rw [workers], by rw [log], fun _ => log⟩

theorem SameAnswer.of_halted (h : Halted b t) (h' : Halted b u) :
    SameAnswer t u ∧ t.workers = u.workers ∧ t.log = u.log := by
  have workers : t.workers = u.workers := by rw [h.workers, h'.workers]
  have log : t.log = u.log := by rw [h.log, h'.log]
  have result : t.supervisor.result = u.supervisor.result := by rw [h.result, h'.result]
  exact ⟨.of_workers_log result (h.moment.unique h'.moment) workers log, workers, log⟩

/-- The errors after the first are not in the log when they are left out. -/
theorem filter_voice (first : RunError) (count : ℕ) :
    (voice (first :: List.replicate count .cancelled)).filter (· ≠ .further .cancelled) =
      voice [first] := by
  simp only [voice, List.map_replicate, List.filter_cons, List.filter_replicate, List.map_nil]
  split <;> simp_all

theorem Fallen.unflagged {error : FeedError} (h : Fallen b error t)
    (opened : ∀ w ∈ b.workers, w.released = false) :
    t.workers.map Worker.unflagged = b.workers.map fun w => w.wound.unflagged := by
  refine map_eq_map h.length fun {index w} worker => ?_
  obtain ⟨v, hv, rfl | ⟨free, rfl⟩⟩ := h.workers worker
  · exact ⟨_, hv, rfl⟩
  · refine ⟨_, hv, ?_⟩
    rw [Worker.wound_eq_stop free (opened w (List.mem_of_getElem? worker)),
      Worker.unflagged_stop _ true]

/-- A worker that was in a call when the feed failed has wound down. -/
theorem Fallen.wound {error : FeedError} (h : Fallen b error t) {index : ℕ} {w : Worker}
    (worker : b.workers[index]? = some w) (calling : w.deadline? ≠ none) :
    t.workers[index]? = some w.wound := by
  obtain ⟨v, hv, rfl | ⟨free, -⟩⟩ := h.workers worker
  · exact hv
  · exact absurd free calling

theorem SameAnswer.of_fallen {error : FeedError} (h : Fallen b error t) (h' : Fallen b error u)
    (opened : ∀ w ∈ b.workers, w.released = false) : SameAnswer t u where
  result := by rw [h.result, h'.result]
  finished := h.moment.unique h'.moment
  calls := by
    have workers := (h.unflagged opened).trans (h'.unflagged opened).symm
    have calls := congrArg (List.map Worker.calls) workers
    rw [List.map_map, List.map_map] at calls
    exact calls
  workers := (h.unflagged opened).trans (h'.unflagged opened).symm
  log := by
    rw [h.log, h'.log]
    simp only [List.filter_append, filter_voice]
  logs workers := by rw [h.log, h'.log, State.dropped, State.dropped, workers]

/-- Two runs in which the feed failed in states that are the same once the workers have begun. -/
theorem same_of_fallen {s s' : State} {error error' : FeedError} {rest rest' : List Feed.Step}
    (same : s.begun.bare = s'.begun.bare) (opened : ∀ w ∈ s.workers, w.released = false)
    (front : s.ingestion.feed = .fail error :: rest)
    (front' : s'.ingestion.feed = .fail error' :: rest') (fallen : Fallen s error t)
    (fallen' : Fallen s' error' u) :
    SameAnswer t u ∧ ∀ {index : ℕ} {w : Worker}, s.workers[index]? = some w →
      w.deadline? ≠ none → t.workers[index]? = u.workers[index]? := by
  have fallen' : Fallen s.begun.bare error' u := same ▸ fallen'.begun
  have feed : s.begun.bare.ingestion.feed = s'.begun.bare.ingestion.feed := by rw [same]
  obtain ⟨rfl, -⟩ : error = error' ∧ rest = rest' := by
    simpa [front, front', State.begun, State.bare] using feed
  refine ⟨.of_fallen fallen.begun fallen' fun v hv => ?_, fun {index w} worker calling => ?_⟩
  · obtain ⟨w, hw, rfl⟩ := List.mem_map.1 hv
    rw [Worker.awake_released, opened w hw]
  · have begun : s.begun.bare.workers[index]? = some w.awake := by
      simp [State.begun, State.bare, worker]
    rw [fallen.wound worker calling, fallen'.wound begun (by rwa [Worker.awake_deadline?]),
      Worker.wound_awake]

/-- While the feed is about to fail, ingestion has something to do. -/
theorem busy_of_failing (failing : b.failing = true) :
    b.begun.bare.Busy ∧ ¬ b.begun.bare.Still := by
  obtain ⟨quiet, ready, error, rest, front⟩ := failing_iff.1 failing
  have opened : b.closed = false := closed_eq_false (by simp [ready])
  exact ⟨.inl opened, fun still => still.ingestion _ (.fail ready quiet front)⟩

/-- The feed failed in a run, and a worker that was in a call then has come to the same in another. -/
def FeedFailed (start : State) (moves : List Move) (t u : State) : Prop :=
  ∃ before after s error, moves = before ++ .task .ingestion :: after ∧ Run start before s ∧
    s.failing = true ∧ t.supervisor.result = some (.error (.feed error)) ∧
    ∀ {index : ℕ} {w : Worker}, s.workers[index]? = some w → w.deadline? ≠ none →
      t.workers[index]? = u.workers[index]?

/-- Two runs that came to the same state without anything from outside. -/
theorem same_of_finales {start : State} (finale : Finale start moves b t)
    (finale' : Finale start more b u) :
    SameAnswer t u ∧
      (t.workers = u.workers ∧ t.log = u.log ∨ FeedFailed start moves t u) := by
  cases finale with
  | concluded idle workers now log result =>
    cases finale' with
    | concluded _ workers' now' log' result' =>
      have workers := workers.trans workers'.symm
      have log := log.trans log'.symm
      exact ⟨.of_workers_log (result.trans result'.symm) (now.trans now'.symm) workers log,
        .inl ⟨workers, log⟩⟩
    | halted _ busy => exact absurd busy idle
    | fallen _ _ failing _ _ same =>
      subst same
      exact absurd (busy_of_failing failing).1 idle
  | halted still busy halted =>
    cases finale' with
    | concluded idle => exact absurd busy idle
    | halted _ _ halted' =>
      obtain ⟨same, both⟩ := SameAnswer.of_halted halted halted'
      exact ⟨same, .inl both⟩
    | fallen _ _ failing _ _ same =>
      subst same
      exact absurd still (busy_of_failing failing).2
  | fallen cut first failing opened front same fallen =>
    subst same
    cases finale' with
    | concluded idle => exact absurd (busy_of_failing failing).1 idle
    | halted still => exact absurd still (busy_of_failing failing).2
    | fallen _ _ _ _ front' same fallen' =>
      obtain ⟨answer, calling⟩ := same_of_fallen same opened front front' fallen fallen'
      exact ⟨answer, .inr ⟨_, _, _, _, cut, first, failing, fallen.result, calling⟩⟩

/-- Two runs of a relay in virtual time give the same answer, whatever the order of the steps, if
nothing that comes from outside falls together with anything else and no worker breaks down. Only
workers that were not in a call when the feed failed may have been cancelled in the one and not in the
other. -/
theorem schedule_independent (run : RunBy (Apart signalAt) (.start setup signal) moves t)
    (run' : RunBy (Apart signalAt) (.start setup signal) more u)
    (ended : t.supervisor.result.isSome = true) (ended' : u.supervisor.result.isSome = true)
    (whole : t.Whole) (whole' : u.Whole) :
    SameAnswer t u ∧
    (t.workers = u.workers ∧ t.log = u.log ∨
      FeedFailed (.start setup signal) moves t u) := by
  cases signal with
  | true =>
    have halts {moves : List Move} {t : State}
        (run : RunBy (Apart signalAt) (.start setup true) moves t)
        (ended : t.supervisor.result.isSome = true) (whole : t.Whole) :
        Halted (.start setup true) t :=
      halted_of_run .start rfl rfl (.inl rfl) (run.mono fun _ _ h => h.prompt) ended whole
    obtain ⟨same, both⟩ := SameAnswer.of_halted (halts run ended whole) (halts run' ended' whole')
    exact ⟨same, .inl both⟩
  | false =>
    obtain ⟨b, turns, last, finale⟩ := finale_of_run run ended whole
    obtain ⟨b', turns', last', finale'⟩ := finale_of_run run' ended' whole'
    obtain rfl : b = b' := turns_unique turns turns' last last'
    exact same_of_finales finale finale'

end SameAnswer

/-! ## Two orders -/

/-- Steady agents break no worker down. -/
theorem whole_of_steady {setup : Setup} {signal : Bool} {moves : List Move} {t : State}
    (steady : ∀ agent ∈ setup.agents, agent.Steady setup.limit)
    (run : Run (.start setup signal) moves t) : t.Whole := by
  intro w hw reason crashed
  obtain ⟨index, worker⟩ := List.mem_iff_getElem?.1 hw
  have crew := crew_of_run run
  obtain ⟨before, call, -, outcome⟩ := (crew.account w hw).broken crashed
  rw [Worker.outcomeOf, crew.limit w hw] at outcome
  exact steady w.agent (List.mem_of_getElem? (crew.agent worker)) _ _ _ outcome

section Follow

variable {s t : State} {signalAt : Option ℕ} {moves : List Move}

instance (s : State) : Decidable (s.move? = none) :=
  decidable_of_iff (s.move?.isNone = true) Option.isNone_iff_eq_none

instance (s : State) : Decidable (s.supervisor.result = none) :=
  decidable_of_iff (s.supervisor.result.isNone = true) Option.isNone_iff_eq_none

instance (s : State) (signalAt : Option ℕ) : Decidable (s.Due signalAt) :=
  inferInstanceAs (Decidable (signalAt = some s.now ∧ s.signal = false))

instance (signalAt : Option ℕ) (s : State) : (m : Move) → Decidable (Prompt signalAt s m)
  | .task _ => isTrue trivial
  | .pass moment =>
    inferInstanceAs (Decidable (s.move? = none ∧ s.supervisor.result = none ∧
      ¬ s.Due signalAt ∧ s.nextMoment? signalAt = some moment))
  | .raise => inferInstanceAs (Decidable (s.Due signalAt))

instance (signalAt : Option ℕ) (s : State) (m : Move) : Decidable (Apart signalAt s m) :=
  decidable_of_iff
    (Prompt signalAt s m ∧
      (m = .task .ingestion → s.failing = true → ∀ w ∈ s.workers, w.atRest s.now = true) ∧
      (m = .raise → s.move? = none))
    ⟨fun ⟨prompt, failure, signal⟩ => ⟨prompt, failure, signal⟩,
      fun ⟨prompt, failure, signal⟩ => ⟨prompt, failure, signal⟩⟩

/-- The relay after moves, if they can be made apart from each other. -/
def follow (signalAt : Option ℕ) : List Move → State → Option State
  | [], s => some s
  | m :: moves, s =>
    if Apart signalAt s m then (s.after m).bind (follow signalAt moves) else none

theorem run_of_follow (h : follow signalAt moves s = some t) : RunBy (Apart signalAt) s moves t := by
  induction moves generalizing s with
  | nil =>
    cases h
    exact .start
  | cons m moves ih =>
    rw [follow] at h
    split_ifs at h with apart
    obtain ⟨u, move, rest⟩ := Option.bind_eq_some_iff.1 h
    exact (RunBy.single apart move).append (ih rest)

/-- To find a run it is enough to carry it out. -/
theorem exists_of_follow (signalAt : Option ℕ) (s : State) (moves : List Move) (p : State → Bool)
    (h : (follow signalAt moves s).any p = true) :
    ∃ t, RunBy (Apart signalAt) s moves t ∧ p t = true := by
  obtain ⟨t, found, hp⟩ := (Option.any_eq_true _ _).1 h
  exact ⟨t, run_of_follow found, hp⟩

end Follow

/-- Two agents, the first of which does not answer, and a feed that pauses after its first item. -/
def pausingSetup : Setup where
  name := defaultName
  capacity := 1
  limit := 50
  agents := [.scripted "a" [⟨0, .silence⟩], .scripted "b" []]
  feed := [.item (.event plainEvent), .pause 100]
  ids := toString

/-- A run that is stopped during a call. The request is put on the queues before a worker begins. -/
def placedFirst : List Move :=
  [.task .ingestion, .task .ingestion, .task .ingestion, .task .ingestion, .task .ingestion,
    .task (.worker 0), .task (.worker 0), .task (.worker 1), .task (.worker 1), .task (.worker 1),
    .pass 20, .raise, .task .ingestion, .task (.worker 1), .task .supervisor, .task .supervisor,
    .pass 50, .task (.worker 0), .task (.worker 0), .task .supervisor, .task .supervisor]

/-- A run of the same relay, stopped at the same moment, whose tasks step in another order. -/
def begunFirst : List Move :=
  [.task (.worker 1), .task (.worker 0), .task .ingestion, .task .ingestion, .task (.worker 0),
    .task .ingestion, .task (.worker 1), .task (.worker 1), .task .ingestion, .task .ingestion,
    .pass 20, .raise, .task (.worker 1), .task .supervisor, .task .ingestion, .task .supervisor,
    .pass 50, .task (.worker 0), .task (.worker 0), .task .supervisor, .task .supervisor]

theorem steady_pausingSetup :
    ∀ agent ∈ pausingSetup.agents, agent.Steady pausingSetup.limit := by
  intro agent hagent
  simp only [pausingSetup, List.mem_cons, List.not_mem_nil, or_false] at hagent
  rcases hagent with rfl | rfl <;> exact scripted_steady (by simp [outcome_ne_crash]) _

theorem schedule_independent_pausingSetup :
    placedFirst ≠ begunFirst ∧
    ∃ t u, RunBy (Apart (some 20)) (.start pausingSetup false) placedFirst t ∧
      RunBy (Apart (some 20)) (.start pausingSetup false) begunFirst u ∧
      t.supervisor.result.isSome = true ∧ u.supervisor.result.isSome = true ∧
      t.Whole ∧ u.Whole ∧ t.supervisor.result = some (.error .cancelled) ∧ t.now = 50 ∧
      SameAnswer t u ∧ t.workers = u.workers ∧ t.log = u.log := by
  obtain ⟨t, run, facts⟩ := exists_of_follow (some 20) (.start pausingSetup false) placedFirst
    (fun t => t.supervisor.result = some (.error .cancelled) && t.now = 50) (by decide +kernel)
  obtain ⟨u, run', ended'⟩ := exists_of_follow (some 20) (.start pausingSetup false) begunFirst
    (fun u => u.supervisor.result.isSome) (by decide +kernel)
  simp only [Bool.and_eq_true, decide_eq_true_eq] at facts
  obtain ⟨result, now⟩ := facts
  have ended : t.supervisor.result.isSome = true := by rw [result]; rfl
  have whole := whole_of_steady steady_pausingSetup run.run
  have whole' := whole_of_steady steady_pausingSetup run'.run
  obtain ⟨same, ⟨workers, log⟩ | ⟨_, _, _, error, -, -, -, failed, -⟩⟩ :=
    schedule_independent run run' ended ended' whole whole'
  · exact ⟨by decide, t, u, run, run', ended, ended', whole, whole', result, now, same, workers, log⟩
  · rw [result] at failed
    cases failed

/-- One agent, and a feed that fails after a pause. -/
def droppedSetup : Setup where
  name := defaultName
  capacity := 100
  limit := 5000
  agents := [.scripted "http://agent-0:50051" []]
  feed := [.pause 5, .fail (.io "feed dropped")]
  ids := fun index => s!"#{index}"

/-- Up to the failure of the feed. -/
def untilFailure : List Move :=
  [.task (.worker 0), .task .ingestion, .pass 5, .task .ingestion, .task .ingestion]

/-- The worker sees its closed queue before the supervisor has heard of the failure. -/
def workerFirst : List Move :=
  untilFailure.append
    [.task (.worker 0), .task .supervisor, .task .supervisor, .task .supervisor]

/-- The supervisor hears of the failure and raises the signal before the worker sees its queue. -/
def supervisorFirst : List Move :=
  untilFailure.append
    [.task .supervisor, .task (.worker 0), .task .supervisor, .task .supervisor]

/-- After a failure of the feed the order shows, although the failure is alone in its moment. -/
theorem failure_shows_order :
    ∃ t u, RunBy (Apart none) (.start droppedSetup false) workerFirst t ∧
      RunBy (Apart none) (.start droppedSetup false) supervisorFirst u ∧
      t.supervisor.result.isSome = true ∧ u.supervisor.result.isSome = true ∧
      t.Whole ∧ u.Whole ∧
      t.workers.map (·.log) = [.moved .idle .running :: Worker.farewell .zero false] ∧
      u.workers.map (·.log) = [.moved .idle .running :: Worker.farewell .zero true] ∧
      t.workers.map (·.log) ≠ u.workers.map (·.log) ∧ t.log ≠ u.log := by
  obtain ⟨t, run, facts⟩ := exists_of_follow none (.start droppedSetup false) workerFirst
    (fun t => t.supervisor.result.isSome &&
      t.workers.map (·.log) = [.moved .idle .running :: Worker.farewell .zero false] &&
      t.log.length = 4) (by decide +kernel)
  obtain ⟨u, run', facts'⟩ := exists_of_follow none (.start droppedSetup false) supervisorFirst
    (fun u => u.supervisor.result.isSome &&
      u.workers.map (·.log) = [.moved .idle .running :: Worker.farewell .zero true] &&
      u.log.length = 5) (by decide +kernel)
  simp only [Bool.and_eq_true, decide_eq_true_eq] at facts facts'
  obtain ⟨⟨ended, log⟩, length⟩ := facts
  obtain ⟨⟨ended', log'⟩, length'⟩ := facts'
  have steady : ∀ agent ∈ droppedSetup.agents, agent.Steady droppedSetup.limit := by
    intro agent hagent
    obtain rfl := List.mem_singleton.1 hagent
    exact scripted_steady (by simp) _
  refine ⟨t, u, run, run', ended, ended', whole_of_steady steady run.run,
    whole_of_steady steady run'.run, log, log', ?_, fun same => ?_⟩
  · rw [log, log']
    decide
  · rw [same, length'] at length
    omega

end Relay

end TxRelay
