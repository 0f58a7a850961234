import Mathlib.Logic.Relation
import TxRelay.Proofs.Relay.Prompt

/-!
# The order of steps at one moment

While the signal is not raised and the feed does not fail, the supervisor changes nothing that the
other tasks see, and ingestion and the workers do not get in each other's way: what one of them can
do it can still do after a step of another, and the two steps come to the same in either order. So it
does not matter in which order they step; when none can step any more the relay is in the same state,
but for what the supervisor is still to hear of.

Results:
* `Turn.diamond`: two steps from one state join in one step each, unless they are the same.
* `turns_unique`: all ways to step on come to the same end.
* `turns_of_run`: a run in virtual time is such a way as long as nothing comes from outside.
-/

namespace TxRelay

namespace Worker

variable {w next : Worker} {now : ℕ} {signal closed : Bool}

theorem Step.eq (step : Step w now signal closed next) :
    w.step now signal closed = some next := by
  cases step with
  | begin fresh => simp [Worker.step, fresh]
  | cancel waiting raised => simp [Worker.step, waiting, raised]
  | call waiting quiet front => simp [Worker.step, waiting, quiet, front]
  | drained waiting quiet front ended => simp [Worker.step, waiting, quiet, front, ended]
  | conclude calling due => simp [Worker.step, calling, due]

/-- A step that can be made while the queue is open can be made when it is closed. -/
theorem Step.close {after : Bool} (step : Step w now signal closed next)
    (stays : closed = true → after = true) : Step w now signal after next := by
  cases step with
  | begin fresh => exact .begin fresh
  | cancel waiting raised => exact .cancel waiting raised
  | call waiting quiet front => exact .call waiting quiet front
  | drained waiting quiet front ended => exact .drained waiting quiet front (stays ended)
  | conclude calling due => exact .conclude calling due

/-- It has not broken down. -/
def Whole (w : Worker) : Prop :=
  ∀ reason, w.activity ≠ .crashed reason

/-- A call that did not break its worker down has ended well or with an error. -/
theorem Whole.mark {request : Request} {outcome : Outcome}
    (whole : (w.conclude request outcome).Whole) : mark? outcome ≠ none := by
  intro hmark
  obtain ⟨reason, rfl⟩ := eq_crash_of_mark hmark
  exact whole reason rfl

theorem whole_of_opened (opened : w.released = false) : w.Whole := by
  intro reason crashed
  simp [Worker.released, crashed] at opened

/-- A worker whose queue is open does not mind one more request on the queue. -/
theorem Step.queue (step : Step w now false false next) (whole : next.Whole) (request : Request) :
    next.released = false ∧ next.queue.length ≤ w.queue.length ∧
      Step { w with queue := w.queue ++ [request] } now false false
        { next with queue := next.queue ++ [request] } := by
  cases step with
  | begin fresh => exact ⟨rfl, le_rfl, .begin fresh⟩
  | cancel waiting raised => cases raised
  | @call first rest waiting quiet front =>
    refine ⟨rfl, by simp [front, Worker.call], .call waiting quiet ?_⟩
    simp [front, Worker.call]
  | drained waiting quiet front ended => cases ended
  | @conclude asked finish outcome calling due =>
    have mark := whole.mark
    rw [conclude_of_mark mark]
    refine ⟨rfl, le_rfl, ?_⟩
    have step : Step { w with queue := w.queue ++ [request] } now false false _ :=
      .conclude calling due
    rwa [conclude_of_mark mark] at step

end Worker

namespace Relay

/-- The next thing that ingestion does is to find that the feed fails. -/
def State.failing (s : State) : Bool :=
  match s.ingestion.activity, s.ingestion.feed with
  | .pulling, .fail _ :: _ => !s.signal
  | _, _ => false

theorem failing_iff {s : State} :
    s.failing = true ↔ s.signal = false ∧ s.ingestion.activity = .pulling ∧
      ∃ error rest, s.ingestion.feed = .fail error :: rest := by
  unfold State.failing
  split
  next error rest ready front => simp [ready, front]
  next other =>
    simp only [Bool.false_eq_true, false_iff]
    rintro ⟨-, ready, error, rest, front⟩
    exact other error rest ready front

/-! ## Sound states -/

/-- No worker has broken down. -/
def State.Whole (s : State) : Prop :=
  ∀ w ∈ s.workers, w.Whole

/-- No worker has broken down, and while the signal is not raised a worker has ended only if its queue
is closed. -/
structure Sound (s : State) : Prop where
  whole : s.Whole
  released : s.signal = false → ∀ w ∈ s.workers, w.released = true → s.closed = true

section Sound

variable {s t : State}

theorem whole_start (setup : Setup) (signal : Bool) : (State.start setup signal).Whole := by
  intro w hw
  obtain ⟨index, hindex⟩ := List.mem_iff_getElem?.1 hw
  obtain ⟨agent, -, rfl⟩ := worker_start hindex
  exact Worker.whole_of_opened rfl

theorem sound_start (setup : Setup) (signal : Bool) : Sound (.start setup signal) := by
  refine ⟨whole_start setup signal, fun _ w hw released => ?_⟩
  obtain ⟨index, hindex⟩ := List.mem_iff_getElem?.1 hw
  obtain ⟨agent, -, rfl⟩ := worker_start hindex
  cases released

/-- A worker that has broken down stays so. -/
theorem Happens.whole {m : Move} (move : Happens s m t) (h : t.Whole) : s.Whole := by
  intro w hw reason crashed
  obtain ⟨index, worker⟩ := List.mem_iff_getElem?.1 hw
  have stays := move.released worker (by simp [Worker.released, crashed])
  exact h w (List.mem_of_getElem? stays) reason crashed

theorem whole_of_run {moves : List Move} (run : Run s moves t) (h : t.Whole) : s.Whole := by
  induction run with
  | start => exact h
  | next _ move ih => exact ih ((happens_of_after move).whole h)

/-- A worker may be replaced by one that a step has made of it, unless it breaks down. -/
theorem Sound.workerStep (h : Sound s) {w next : Worker}
    (step : w.Step s.now s.signal s.closed next) (whole : next.Whole) (index : ℕ) :
    Sound (s.setWorker index next) := by
  refine ⟨fun v hv => ?_, fun quiet v hv released => ?_⟩
  · rcases List.mem_or_eq_of_mem_set hv with hv | rfl
    · exact h.whole v hv
    · exact whole
  · rcases List.mem_or_eq_of_mem_set hv with hv | rfl
    · exact h.released quiet v hv released
    · cases step with
      | begin | call => cases released
      | cancel waiting raised => rw [show s.signal = false from quiet] at raised; cases raised
      | drained waiting _ front ended => exact ended
      | conclude calling =>
        rw [Worker.conclude_of_mark whole.mark] at released
        cases released

/-- While ingestion has not ended and the signal is not raised, no worker has ended. -/
theorem Sound.opened (h : Sound s) (quiet : s.signal = false)
    (running : s.ingestion.activity ≠ .ended) {w : Worker} (hw : w ∈ s.workers) :
    w.released = false := by
  by_contra released
  exact running (closed_iff.1 (h.released quiet w hw (by simpa using released)))

theorem Sound.ingestionStep (h : Sound s) (step : IngestionStep s t) : Sound t := by
  have running := step.running
  cases step with
  | @push request index w placing quiet worker opened room =>
    refine ⟨fun v hv => ?_, fun _ v hv released => ?_⟩ <;>
      rcases List.mem_or_eq_of_mem_set hv with hv | rfl
    · exact h.whole v hv
    · exact Worker.whole_of_opened opened
    · rw [h.opened quiet running hv] at released; cases released
    · rw [show w.released = true from released] at opened; cases opened
  | cancel | exhaust | skip | tag | pause | fail | resume | finish | dead =>
    refine ⟨h.whole, fun quiet w hw released => ?_⟩
    rw [h.opened quiet running hw] at released
    cases released

theorem Sound.happens {m : Move} (h : Sound s) (move : Happens s m t) (whole : t.Whole) :
    Sound t := by
  have same (workers : t.workers = s.workers) (closed : s.closed = true → t.closed = true) :
      Sound t := by
    refine ⟨whole, fun quiet w hw released => ?_⟩
    have quieter : s.signal = false := by
      by_contra raised
      rw [move.signal (by simpa using raised)] at quiet
      cases quiet
    exact closed (h.released quieter w (workers ▸ hw) released)
  cases move with
  | ingestion step => exact h.ingestionStep step
  | worker worker step =>
    refine h.workerStep step (whole _ ?_) _
    exact List.mem_set (List.getElem?_eq_some_iff.1 worker).1 _
  | join => exact same (by simp) (by simp [closed_iff])
  | conclude => exact same (by simp) (by simp [closed_iff])
  | pass | raise => exact same rfl id

theorem sound_of_run {setup : Setup} {signal : Bool} {moves : List Move}
    (run : Run (.start setup signal) moves t) (whole : t.Whole) : Sound t := by
  induction run with
  | start => exact sound_start setup signal
  | next _ move ih =>
    have happens := happens_of_after move
    exact (ih (happens.whole whole)).happens happens whole

end Sound

/-! ## Steps without the supervisor -/

/-- A relay whose supervisor has heard of nothing and has nothing to hear of. -/
def State.bare (s : State) : State :=
  { s with ends := [], supervisor := .fresh 0 }

/-- A task other than the supervisor has not ended. -/
def State.Busy (s : State) : Prop :=
  s.closed = false ∨ ∃ w ∈ s.workers, w.released = false

/-- Neither ingestion nor a worker can step. -/
structure State.Still (s : State) : Prop where
  ingestion : ∀ t, ¬ IngestionStep s t
  worker : ∀ {index : ℕ} {w next : Worker}, s.workers[index]? = some w →
    ¬ w.Step s.now s.signal s.closed next

/-- What goes on without the supervisor: a task steps, except that the feed does not fail and no
worker breaks down, or time passes because none can step. -/
inductive Act (signalAt : Option ℕ) (s : State) : State → Prop
  | ingestion {t} (flawless : s.failing = false) (step : IngestionStep s t) : Act signalAt s t.bare
  | worker {index : ℕ} {w next : Worker} (worker : s.workers[index]? = some w)
      (step : w.Step s.now s.signal s.closed next) (whole : next.Whole) :
      Act signalAt s (s.setWorker index next).bare
  | pass {moment} (still : s.Still) (busy : s.Busy) (undue : ¬ s.Due signalAt)
      (next : s.nextMoment? signalAt = some moment) : Act signalAt s { s with now := moment }.bare

/-- This goes on while the signal is not raised and the state is sound. -/
structure Turn (signalAt : Option ℕ) (s t : State) : Prop where
  quiet : s.signal = false
  sound : Sound s
  act : Act signalAt s t

section Steps

variable {s t u : State} {index : ℕ} {w next : Worker} {signalAt : Option ℕ}

/-- While the signal is not raised ingestion has one way to step. -/
theorem IngestionStep.eq (step : IngestionStep s t) (quiet : s.signal = false) :
    s.stepIngestion = some t := by
  cases step with
  | cancel running raised => rw [quiet] at raised; cases raised
  | exhaust ready _ front => simp [State.stepIngestion, ready, quiet, State.pull, front]
  | skip ready _ front bad =>
    simp [State.stepIngestion, ready, quiet, State.pull, front, State.take, bad]
  | tag ready _ front good =>
    simp [State.stepIngestion, ready, quiet, State.pull, front, State.take, good]
  | pause ready _ front => simp [State.stepIngestion, ready, quiet, State.pull, front]
  | fail ready _ front => simp [State.stepIngestion, ready, quiet, State.pull, front]
  | resume paused _ due => simp [State.stepIngestion, paused, quiet, due]
  | finish placing done =>
    simp [State.stepIngestion, placing, List.getElem?_eq_none_iff.2 done]
  | dead placing _ worker released =>
    simp [State.stepIngestion, placing, worker, quiet, State.place, released]
  | push placing _ worker opened room =>
    simp [State.stepIngestion, placing, worker, quiet, State.place, opened, room]

/-- What ingestion does does not depend on what the supervisor has heard of. -/
theorem IngestionStep.apart (step : IngestionStep s t) (ends : List TaskEnd)
    (supervisor : Supervisor) :
    ∃ u, IngestionStep { s with ends, supervisor } u ∧ u.bare = t.bare := by
  cases step with
  | cancel running raised => exact ⟨_, .cancel running raised, rfl⟩
  | exhaust ready quiet front => exact ⟨_, .exhaust ready quiet front, rfl⟩
  | skip ready quiet front bad => exact ⟨_, .skip ready quiet front bad, rfl⟩
  | tag ready quiet front good => exact ⟨_, .tag ready quiet front good, rfl⟩
  | pause ready quiet front => exact ⟨_, .pause ready quiet front, rfl⟩
  | fail ready quiet front => exact ⟨_, .fail ready quiet front, rfl⟩
  | resume paused quiet due => exact ⟨_, .resume paused quiet due, rfl⟩
  | finish placing done => exact ⟨_, .finish placing done, rfl⟩
  | dead placing quiet worker released => exact ⟨_, .dead placing quiet worker released, rfl⟩
  | push placing quiet worker opened room =>
    exact ⟨_, .push placing quiet worker opened room, rfl⟩

theorem Sound.bare (h : Sound s) : Sound s.bare :=
  ⟨h.whole, h.released⟩

theorem Still.bare (h : s.Still) : s.bare.Still where
  ingestion t step := by
    obtain ⟨u, step', -⟩ := step.apart s.ends s.supervisor
    exact h.ingestion u step'
  worker worker step := h.worker worker step

/-- What goes on from a state goes on without the supervisor. -/
theorem Act.bare (h : Act signalAt s t) : Act signalAt s.bare t := by
  cases h with
  | ingestion flawless step =>
    obtain ⟨u, step', hu⟩ := step.apart [] (.fresh 0)
    exact hu ▸ .ingestion flawless step'
  | worker worker step whole => exact .worker worker step whole
  | pass still busy undue next => exact .pass (Still.bare still) busy undue next

theorem Turn.bare (h : Turn signalAt s t) : Turn signalAt s.bare t :=
  ⟨h.quiet, h.sound.bare, h.act.bare⟩

/-- A state that goes on stays as sound and as quiet as it was. -/
theorem Turn.keeps (h : Turn signalAt s t) : t.signal = false ∧ Sound t := by
  have quiet := h.quiet
  cases h.act with
  | ingestion flawless step =>
    refine ⟨?_, (h.sound.ingestionStep step).bare⟩
    cases step <;> exact quiet
  | worker worker step whole => exact ⟨quiet, (h.sound.workerStep step whole _).bare⟩
  | pass => exact ⟨quiet, h.sound.whole, h.sound.released⟩

/-! ## Steps in either order -/

/-- A request can be put on a queue before or after a step of its worker. -/
theorem commute_push (quiet : s.signal = false) {request : Request}
    (placing : s.ingestion.activity = .placing request index)
    (worker : s.workers[index]? = some w) (room : w.queue.length < s.setup.room)
    (step : w.Step s.now s.signal s.closed next) (whole : next.Whole) :
    ∃ v, Act signalAt (s.push request index w) v ∧ Act signalAt (s.setWorker index next) v := by
  have hindex : index < s.workers.length := (List.getElem?_eq_some_iff.1 worker).1
  have hopen : s.closed = false := closed_eq_false (by simp [placing])
  rw [quiet, hopen] at step
  obtain ⟨opened, le, queued⟩ := step.queue whole request
  have first : IngestionStep (s.setWorker index next)
      ((s.setWorker index next).push request index next) := by
    refine .push placing quiet ?_ opened (le.trans_lt room)
    simp [State.setWorker, hindex]
  have second : Act signalAt (s.push request index w)
      ((s.push request index w).setWorker index
        { next with queue := next.queue ++ [request] }).bare := by
    refine .worker (w := { w with queue := w.queue ++ [request] }) ?_ ?_ whole
    · simp [State.push, hindex]
    · change Worker.Step _ s.now s.signal (s.push request index w).closed _
      rw [quiet, closed_eq_false (s := s.push request index w) (by simp)]
      exact queued
  have same : ((s.setWorker index next).push request index next).bare =
      ((s.push request index w).setWorker index
        { next with queue := next.queue ++ [request] }).bare := by
    simp [State.push, State.setWorker, State.bare]
  have flawless : (s.setWorker index next).failing = false := by
    simp [State.failing, State.setWorker, placing]
  exact ⟨_, second, same ▸ Act.ingestion flawless first⟩

/-- A step of ingestion and a step of a worker come to the same in either order. -/
theorem commute_worker (sound : Sound s) (quiet : s.signal = false) (flawless : s.failing = false)
    (step : IngestionStep s t) (worker : s.workers[index]? = some w)
    (wstep : w.Step s.now s.signal s.closed next) (whole : next.Whole) :
    ∃ v, Act signalAt t v ∧ Act signalAt (s.setWorker index next) v := by
  have general (workers : t.workers = s.workers) (now : t.now = s.now)
      (signal : t.signal = s.signal) (stays : s.closed = true → t.closed = true)
      (mirror : ∃ t', IngestionStep (s.setWorker index next) t' ∧
        t'.bare = (t.setWorker index next).bare) :
      ∃ v, Act signalAt t v ∧ Act signalAt (s.setWorker index next) v := by
    obtain ⟨t', step', ht⟩ := mirror
    have flawless : (s.setWorker index next).failing = false := flawless
    refine ⟨_, .worker (workers ▸ worker) ?_ whole, ht ▸ Act.ingestion flawless step'⟩
    rw [now, signal]
    exact wstep.close stays
  have running := step.running
  have hopen : s.closed = true → t.closed = true := fun closed => absurd (closed_iff.1 closed) running
  cases step with
  | cancel _ raised => rw [quiet] at raised; cases raised
  | exhaust ready _ front => exact general rfl rfl rfl hopen ⟨_, .exhaust ready quiet front, rfl⟩
  | skip ready _ front bad => exact general rfl rfl rfl hopen ⟨_, .skip ready quiet front bad, rfl⟩
  | tag ready _ front good => exact general rfl rfl rfl hopen ⟨_, .tag ready quiet front good, rfl⟩
  | pause ready _ front => exact general rfl rfl rfl hopen ⟨_, .pause ready quiet front, rfl⟩
  | fail ready _ front =>
    rw [failing_iff.2 ⟨quiet, ready, _, _, front⟩] at flawless
    cases flawless
  | resume paused _ due => exact general rfl rfl rfl hopen ⟨_, .resume paused quiet due, rfl⟩
  | finish placing done =>
    refine general rfl rfl rfl hopen ⟨_, .finish placing ?_, rfl⟩
    rw [State.setWorker, List.length_set]
    exact done
  | dead placing _ worker' released =>
    rw [sound.opened quiet running (List.mem_of_getElem? worker')] at released
    cases released
  | @push request other w' placing _ worker' opened room =>
    rcases eq_or_ne other index with rfl | hne
    · obtain rfl : w = w' := Option.some.inj (worker.symm.trans worker')
      exact commute_push quiet placing worker room wstep whole
    · have hother : (s.setWorker index next).workers[other]? = some w' := by
        rw [State.setWorker, List.getElem?_set_ne hne.symm, worker']
      have hindex : (s.push request other w').workers[index]? = some w := by
        rw [State.push, List.getElem?_set_ne hne, worker]
      have same : ((s.setWorker index next).push request other w').bare =
          ((s.push request other w').setWorker index next).bare := by
        simp [State.push, State.setWorker, State.bare, List.set_comm _ _ hne]
      have flawless : (s.setWorker index next).failing = false := flawless
      refine ⟨_, .worker hindex (wstep.close hopen) whole, same ▸ Act.ingestion flawless ?_⟩
      exact .push placing quiet hother opened room

/-- Steps of two workers come to the same in either order. -/
theorem commute_workers {other : ℕ} {v after : Worker} (hne : index ≠ other)
    (worker : s.workers[index]? = some w) (step : w.Step s.now s.signal s.closed next)
    (whole : next.Whole) (worker' : s.workers[other]? = some v)
    (step' : v.Step s.now s.signal s.closed after) (whole' : after.Whole) :
    ∃ u, Act signalAt (s.setWorker index next) u ∧ Act signalAt (s.setWorker other after) u := by
  have first : (s.setWorker index next).workers[other]? = some v := by
    rw [State.setWorker, List.getElem?_set_ne hne, worker']
  have second : (s.setWorker other after).workers[index]? = some w := by
    rw [State.setWorker, List.getElem?_set_ne hne.symm, worker]
  have same : ((s.setWorker other after).setWorker index next).bare =
      ((s.setWorker index next).setWorker other after).bare := by
    simp [State.setWorker, State.bare, List.set_comm _ _ hne]
  exact ⟨_, .worker first step' whole', same ▸ Act.worker second step whole⟩

/-- Two ways to go on from one state are the same or join in one step each. -/
theorem Turn.diamond (first : Turn signalAt s t) (second : Turn signalAt s u) :
    t = u ∨ ∃ v, Turn signalAt t v ∧ Turn signalAt u v := by
  have quiet := first.quiet
  have sound := first.sound
  have join (h : ∃ v, Act signalAt t v ∧ Act signalAt u v) :
      t = u ∨ ∃ v, Turn signalAt t v ∧ Turn signalAt u v := by
    obtain ⟨v, left, right⟩ := h
    exact .inr ⟨v, ⟨first.keeps.1, first.keeps.2, left⟩, second.keeps.1, second.keeps.2, right⟩
  have bare {t u : State} (h : ∃ v, Act signalAt t v ∧ Act signalAt u v) :
      ∃ v, Act signalAt t.bare v ∧ Act signalAt u.bare v := by
    obtain ⟨v, left, right⟩ := h
    exact ⟨v, left.bare, right.bare⟩
  cases first.act with
  | ingestion flawless step =>
    cases second.act with
    | ingestion _ step' =>
      left
      rw [Option.some.inj ((step.eq quiet).symm.trans (step'.eq quiet))]
    | worker worker wstep whole =>
      exact join (bare (commute_worker sound quiet flawless step worker wstep whole))
    | pass still => exact absurd step (still.ingestion _)
  | @worker index w next worker wstep whole =>
    cases second.act with
    | ingestion flawless step =>
      obtain ⟨v, left, right⟩ := commute_worker sound quiet flawless step worker wstep whole
      exact join (bare ⟨v, right, left⟩)
    | @worker other w' after worker' wstep' whole' =>
      rcases eq_or_ne index other with rfl | hne
      · left
        obtain rfl : w = w' := Option.some.inj (worker.symm.trans worker')
        rw [Option.some.inj (wstep.eq.symm.trans wstep'.eq)]
      · exact join (bare (commute_workers hne worker wstep whole worker' wstep' whole'))
    | pass still => exact absurd wstep (still.worker worker)
  | pass still _ _ next =>
    cases second.act with
    | ingestion _ step => exact absurd step (still.ingestion _)
    | worker worker wstep => exact absurd wstep (still.worker worker)
    | pass _ _ _ next' =>
      left
      rw [Option.some.inj (next.symm.trans next')]

/-- All ways to go on until nothing goes on any more come to the same. -/
theorem turns_unique (first : Relation.ReflTransGen (Turn signalAt) s t)
    (second : Relation.ReflTransGen (Turn signalAt) s u) (last : ∀ v, ¬ Turn signalAt t v)
    (last' : ∀ v, ¬ Turn signalAt u v) : t = u := by
  have stays {v v' : State} (last : ∀ u, ¬ Turn signalAt v u)
      (turns : Relation.ReflTransGen (Turn signalAt) v v') : v' = v := by
    rcases turns.cases_head with rfl | ⟨_, turn, -⟩
    · rfl
    · exact absurd turn (last _)
  obtain ⟨v, left, right⟩ := Relation.church_rosser (r := Turn signalAt) (fun a b c hb hc => by
    rcases hb.diamond hc with rfl | ⟨d, hbd, hcd⟩
    · exact ⟨b, .refl, .refl⟩
    · exact ⟨d, .single hbd, .single hcd⟩) first second
  exact (stays last left).symm.trans (stays last' right)

end Steps

/-! ## Runs -/

section Run

variable {s t : State} {signalAt : Option ℕ}

/-- While the run has no result and the supervisor has nothing to do, another task has not ended. -/
theorem busy_of_stuck (register : Register s) (busy : s.supervisor.result = none)
    (stuck : s.stepSupervisor = none) : s.Busy := by
  by_contra idle
  rw [State.Busy, not_or] at idle
  obtain ⟨closed, released⟩ := idle
  push Not at released
  have hcount := register.count
  rw [State.endedCount, if_pos (by simpa using closed),
    List.countP_eq_length.2 fun w hw => by simpa using released w hw] at hcount
  simp only [State.stepSupervisor, busy] at stuck
  split at stuck
  next => cases stuck
  next front =>
    split_ifs at stuck with all
    rw [front, List.length_nil] at hcount
    rw [State.taskCount] at all
    omega

/-- When no task can step, neither ingestion nor a worker can. -/
theorem still_of_move? (quiet : s.signal = false) (stuck : s.move? = none) : s.Still where
  ingestion t step := by
    have hstep : s.stepIngestion = none := step_of_move? stuck .ingestion
    rw [step.eq quiet] at hstep
    cases hstep
  worker {index w next} worker step := by
    have hstep : s.stepWorker index = none := step_of_move? stuck (.worker index)
    simp [State.stepWorker, worker, step.eq] at hstep

theorem ok_of_spotless (spotless : s.firstError? = none) {e : TaskEnd} {rest : List TaskEnd}
    (front : s.ends = e :: rest) : e.error? = none := by
  rw [State.firstError?, front, List.findSome?_cons] at spotless
  cases he : e.error? with
  | none => rfl
  | some error => simp [he] at spotless

/-- To hear of a task that has ended well changes only what the supervisor knows. -/
theorem join_of_ok (s : State) {e : TaskEnd} (ok : e.error? = none) :
    ∃ supervisor, s.join e = { s with supervisor } := by
  cases e with
  | ingestion result =>
    cases result with
    | ok => exact ⟨_, rfl⟩
    | error => cases ok
  | worker index result =>
    cases result with
    | ok => exact ⟨_, rfl⟩
    | error => cases ok

/-- The failure of the feed is an error. -/
theorem firstError_of_failing (step : IngestionStep s t) (failing : s.failing = true) :
    t.firstError? ≠ none := by
  obtain ⟨quiet, ready, error, rest, front⟩ := failing_iff.1 failing
  have fails := IngestionStep.fail ready quiet front
  obtain rfl := Option.some.inj ((step.eq quiet).symm.trans (fails.eq quiet))
  simp [State.firstError?, State.endIngestion, TaskEnd.error?]

/-- The signal is not raised, and no task has ended with an error. -/
structure Pristine (s : State) : Prop where
  quiet : s.signal = false
  spotless : s.firstError? = none

theorem Happens.pristine {m : Move} (move : Happens s m t) (h : Pristine t) : Pristine s := by
  refine ⟨?_, move.spotless h.spotless⟩
  by_contra raised
  have hquiet := h.quiet
  rw [move.signal (by simpa using raised)] at hquiet
  cases hquiet

/-- A worker that breaks down ends with an error. -/
theorem whole_of_spotless (register : Register s) (spotless : s.firstError? = none) : s.Whole := by
  intro w hw reason crashed
  obtain ⟨index, worker⟩ := List.mem_iff_getElem?.1 hw
  obtain ⟨stopped, -⟩ := register.stopped worker (by simp [Worker.released, crashed]) spotless
  rw [crashed] at stopped
  cases stopped

/-- A run in virtual time goes on without the supervisor as long as nothing comes from outside. -/
theorem turns_of_run {setup : Setup} {moves : List Move}
    (run : RunBy (Prompt signalAt) (.start setup false) moves t) (h : Pristine t) :
    Relation.ReflTransGen (Turn signalAt) (State.start setup false).bare t.bare := by
  induction run with
  | start => exact .refl
  | @next moves s m t run allowed move ih =>
    have happens := happens_of_after move
    have before := happens.pristine h
    have turns := ih before
    have whole := whole_of_spotless (register_of_run (run.run.next move)) h.spotless
    have sound := sound_of_run run.run (happens.whole whole)
    have onward {u : State} (act : Act signalAt s u) :
        Relation.ReflTransGen (Turn signalAt) (State.start setup false).bare u :=
      turns.tail (Turn.bare ⟨before.quiet, sound, act⟩)
    cases happens with
    | ingestion step =>
      refine onward (.ingestion ?_ step)
      by_contra failing
      exact firstError_of_failing step (by simpa using failing) h.spotless
    | worker worker step =>
      refine onward (.worker worker step (whole _ ?_))
      exact List.mem_set (List.getElem?_eq_some_iff.1 worker).1 _
    | @join e rest busy front =>
      have ok := ok_of_spotless before.spotless front
      obtain ⟨supervisor, hjoin⟩ := join_of_ok
        { s with ends := rest, supervisor.joined := s.supervisor.joined + 1 } ok
      rw [hjoin]
      exact turns
    | conclude =>
      obtain ⟨log, hconclude⟩ := conclude_eq s
      have quiet := h.quiet
      rw [hconclude] at quiet
      cases quiet
    | pass =>
      obtain ⟨stuck, busy, undue, next⟩ := allowed
      have supervisor : s.stepSupervisor = none := step_of_move? stuck .supervisor
      exact onward (.pass (still_of_move? before.quiet stuck)
        (busy_of_stuck (register_of_run run.run) busy supervisor) undue next)
    | raise => cases h.quiet

end Run

end Relay

end TxRelay
