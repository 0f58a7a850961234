import TxRelay.Proofs.Relay.Confluence
import TxRelay.Proofs.Relay.Shutdown

/-!
# How a run ends that is cut short

Once the signal is raised, or the feed has failed, every task comes to an end of its own, and what it
comes to does not depend on the order of the steps: a worker finishes its call and stops, the run ends
with the last call, and the supervisor names the first error and logs the others as they come. Only a
worker that is at rest when the feed fails may stop in two ways, as it sees the signal first or its
closed queue.

Results:
* `Told.happens`: what the supervisor logs of the errors, move by move.
* `halted_of_run`: how a run ends after the signal.
* `fallen_of_run`: how a run ends after a failure of the feed.
-/

namespace TxRelay

namespace Worker

/-- The worker when it has begun. -/
def awake (w : Worker) : Worker :=
  match w.activity with
  | .idle => w.begin
  | _ => w

/-- A worker that has nothing to do at a moment while its queue is open and the signal is not raised,
except that it may have to begin. -/
def atRest (now : ℕ) (w : Worker) : Bool :=
  w.activity = .idle && w.queue = [] || (w.step now false false).isNone

/-- The worker when it has wound down. -/
def wound (w : Worker) : Worker :=
  match w.activity with
  | .idle => w.begin.stop true
  | .waiting => w.stop true
  | .calling request _ outcome => (w.conclude request outcome).stop true
  | .stopped _ | .crashed _ => w

variable {w v : Worker} {now finish : ℕ}

theorem awake_eq (h : w.activity ≠ .idle) : w.awake = w := by
  unfold Worker.awake
  split
  next fresh => exact absurd fresh h
  next => rfl

@[simp] theorem awake_awake (w : Worker) : w.awake.awake = w.awake := by
  cases h : w.activity <;> simp [Worker.awake, h, Worker.begin]

@[simp] theorem wound_awake (w : Worker) : w.awake.wound = w.wound := by
  cases h : w.activity <;> simp [Worker.awake, Worker.wound, h, Worker.begin, Worker.stop]

@[simp] theorem awake_deadline? (w : Worker) : w.awake.deadline? = w.deadline? := by
  cases h : w.activity <;> simp [Worker.awake, Worker.deadline?, h, Worker.begin]

@[simp] theorem awake_released (w : Worker) : w.awake.released = w.released := by
  cases h : w.activity <;> simp [Worker.awake, Worker.released, h, Worker.begin]

theorem deadline?_eq_some : w.deadline? = some finish ↔
    ∃ request outcome, w.activity = .calling request finish outcome := by
  unfold Worker.deadline?
  split
  next request other outcome calling => simp [calling]
  next free =>
    simp only [reduceCtorEq, false_iff]
    rintro ⟨request, outcome, calling⟩
    exact free request finish outcome calling

/-- A worker that winds down and has ended has done all of it. -/
theorem Winding.eq_wound (h : Winding w now v) (whole : v.Whole) (released : v.released = true) :
    v = w.wound := by
  cases h with
  | still =>
    unfold Worker.released at released
    unfold Worker.wound
    split at released
    next stopped => rw [stopped]
    next crashed => rw [crashed]
    next => cases released
  | begun => cases released
  | concluded calling =>
    rw [conclude_of_mark whole.mark] at released
    cases released
  | stopped before ready =>
    cases before with
    | still => rw [Worker.wound, ready]
    | begun fresh => rw [Worker.wound, fresh]
    | concluded calling => rw [Worker.wound, calling]
    | stopped => cases ready

/-- A call of a worker that has ended since has come to its end. -/
theorem Winding.due (h : Winding w now v) (deadline : w.deadline? = some finish)
    (released : v.released = true) : finish ≤ now := by
  obtain ⟨request, outcome, calling⟩ := deadline?_eq_some.1 deadline
  rcases h.inFlight calling with rfl | ⟨due, -⟩
  · rw [Worker.released, calling] at released; cases released
  · exact due

/-- A worker that winds down and is in a call has taken no step. -/
theorem Winding.calling (h : Winding w now v) (deadline : v.deadline? = some finish) : v = w := by
  obtain ⟨request, outcome, calling⟩ := deadline?_eq_some.1 deadline
  rcases h.eq_or with rfl | ready | released
  · rfl
  · rw [calling] at ready; cases ready
  · rw [Worker.released, calling] at released; cases released

/-- A worker that winds down, was not in a call and is ready has done no more than to begin. -/
theorem Winding.eq_awake (h : Winding w now v) (free : w.deadline? = none)
    (ready : v.activity = .waiting) : v = w.awake := by
  cases h with
  | still => rw [Worker.awake, ready]
  | begun fresh => rw [Worker.awake, fresh]
  | concluded calling =>
    rw [deadline?_eq_some.2 ⟨_, _, calling⟩] at free
    cases free
  | stopped => cases ready

theorem queue_of_atRest (h : w.atRest now = true) (opened : w.released = false)
    (free : w.deadline? = none) : w.queue = [] := by
  cases hactivity : w.activity with
  | idle => simpa [Worker.atRest, hactivity, Worker.step] using h
  | waiting =>
    cases hqueue : w.queue with
    | nil => rfl
    | cons request rest => simp [Worker.atRest, hactivity, Worker.step, hqueue] at h
  | calling => simp [Worker.deadline?, hactivity] at free
  | stopped | crashed => simp [Worker.released, hactivity] at opened

theorem lt_of_atRest (h : w.atRest now = true) (deadline : w.deadline? = some finish) :
    now < finish := by
  obtain ⟨request, outcome, calling⟩ := deadline?_eq_some.1 deadline
  simpa [Worker.atRest, calling, Worker.step] using h

theorem wound_eq_stop (free : w.deadline? = none) (opened : w.released = false) :
    w.wound = w.awake.stop true := by
  cases h : w.activity with
  | idle | waiting => simp [Worker.wound, Worker.awake, h]
  | calling => simp [Worker.deadline?, h] at free
  | stopped | crashed => simp [Worker.released, h] at opened

/-- A worker at rest has nothing to do when it has begun. -/
theorem stuck_of_atRest (h : w.atRest now = true) : ¬ w.awake.Step now false false v := by
  intro step
  have hstep := step.eq
  cases hactivity : w.activity with
  | idle =>
    have queue : w.queue = [] := by simpa [Worker.atRest, hactivity, Worker.step] using h
    simp [Worker.awake, hactivity, Worker.begin, Worker.step, queue] at hstep
  | waiting | calling | stopped | crashed =>
    rw [awake_eq (by simp [hactivity])] at hstep
    simp [Worker.atRest, hactivity, hstep] at h

/-- A step with which a worker ends, unless it breaks down, is that it stops: because of the signal if
that is raised. -/
theorem Step.release {signal closed : Bool} (step : Step w now signal closed v)
    (whole : v.Whole) :
    v.released = false ∨ w.activity = .waiting ∧ v = w.stop signal := by
  cases step with
  | begin | call => exact .inl rfl
  | cancel waiting raised => exact .inr ⟨waiting, by rw [raised]⟩
  | drained waiting quiet => exact .inr ⟨waiting, by rw [quiet]⟩
  | conclude calling => rw [conclude_of_mark whole.mark]; exact .inl rfl

end Worker

namespace Relay

/-! ## What the supervisor logs -/

/-- What the supervisor logs of the errors it hears of. -/
def voice : List RunError → List Record
  | [] => []
  | first :: others =>
    (if first.isCancelled then .cancelled else .failed first) :: others.map .further

/-- What the supervisor logs when it has heard of every task. -/
def State.closing (s : State) : List Record :=
  match s.supervisor.result with
  | none => []
  | some (.error error) => [.stopped s.setup.name error]
  | some (.ok summary) => [.finished s.setup.name summary.totals]

/-- The errors that tasks have ended with and that the supervisor has still to hear of. -/
def State.unheard (s : State) : List RunError :=
  s.ends.filterMap TaskEnd.error?

/-- The supervisor has logged what it has heard of some errors, and the log was like this before. -/
def Told (base : List Record) (errors : List RunError) (s : State) : Prop :=
  ∃ heard, s.supervisor.error = heard.head? ∧ heard ++ s.unheard = errors ∧
    s.log = base ++ voice heard ++ s.closing

/-- The number of tasks that have not ended, apart from the supervisor. -/
def State.unended (s : State) : ℕ :=
  (if s.closed then 0 else 1) + s.workers.countP fun w => !w.released

/-- The number of workers that have stopped because of the signal. -/
def State.dropped (s : State) : ℕ :=
  s.workers.countP fun w => w.activity = .stopped true

section Told

variable {base : List Record} {errors : List RunError} {s t : State}

theorem voice_append (heard : List RunError) (error : RunError) :
    voice (heard ++ [error]) = voice heard ++
      [match heard.head? with
        | none => if error.isCancelled then .cancelled else .failed error
        | some _ => .further error] := by
  cases heard with
  | nil => rfl
  | cons first others => simp [voice]

/-- A task ends, with an error or without. -/
theorem Told.ends (h : Told base errors s) (more : List TaskEnd) (ends : t.ends = s.ends ++ more)
    (supervisor : t.supervisor = s.supervisor) (setup : t.setup = s.setup) (log : t.log = s.log) :
    Told base (errors ++ more.filterMap TaskEnd.error?) t := by
  obtain ⟨heard, error, all, told⟩ := h
  have unheard : t.unheard = s.unheard ++ more.filterMap TaskEnd.error? := by
    rw [State.unheard, ends, List.filterMap_append]
    rfl
  have closing : t.closing = s.closing := by
    rw [State.closing, State.closing, supervisor, setup]
  refine ⟨heard, supervisor ▸ error, ?_, ?_⟩
  · rw [unheard, ← all, List.append_assoc]
  · rw [log, closing, told]

theorem hear_log (s : State) (error : RunError) :
    (s.hear error).log = s.log ++
      [match s.supervisor.error with
        | none => if error.isCancelled then .cancelled else .failed error
        | some _ => .further error] := by
  cases h : s.supervisor.error <;> simp [State.hear, State.record, h]

/-- The supervisor hears of an error, or of a task that has ended well. -/
theorem Told.join (h : Told base errors s) (busy : s.supervisor.result = none) {e : TaskEnd}
    {rest : List TaskEnd} (front : s.ends = e :: rest) :
    Told base errors
      ({ s with ends := rest, supervisor.joined := s.supervisor.joined + 1 }.join e) := by
  obtain ⟨heard, error, all, told⟩ := h
  have closing {u : State} (hu : u.supervisor.result = none) : u.closing = [] := by
    rw [State.closing, hu]
  rw [closing busy, List.append_nil] at told
  set after := { s with ends := rest, supervisor.joined := s.supervisor.joined + 1 } with hafter
  have hears (e' : RunError) (he : e.error? = some e') : Told base errors (after.hear e') := by
    obtain ⟨log, hhear⟩ := hear_eq after e'
    refine ⟨heard ++ [e'], ?_, ?_, ?_⟩
    · rw [hhear]
      change s.supervisor.error.or (some e') = _
      rw [error]
      cases heard <;> rfl
    · rw [← all, State.unheard, State.unheard, hear_ends, front, List.filterMap_cons_some he,
        List.append_assoc]
      rfl
    · rw [hear_log, closing (by rw [hhear]; exact busy), List.append_nil, voice_append, ← error,
        ← List.append_assoc, ← told]
  have passes (he : e.error? = none) (u : State) (ends : u.ends = rest)
      (same : u.supervisor.error = s.supervisor.error) (open' : u.supervisor.result = none)
      (log : u.log = s.log) : Told base errors u := by
    refine ⟨heard, same ▸ error, ?_, ?_⟩
    · rw [← all, State.unheard, State.unheard, ends, front, List.filterMap_cons_none he]
    · rw [log, closing open', List.append_nil, told]
  cases e with
  | ingestion result =>
    cases result with
    | ok totals => exact passes rfl _ rfl rfl busy rfl
    | error error => exact hears error rfl
  | worker index result =>
    cases result with
    | ok stats => exact passes rfl _ rfl rfl busy rfl
    | error error => exact hears error rfl

theorem Told.conclude (h : Told base errors s) (busy : s.supervisor.result = none) :
    Told base errors s.conclude := by
  obtain ⟨heard, error, all, told⟩ := h
  have closing : s.closing = [] := by rw [State.closing, busy]
  rw [closing, List.append_nil] at told
  refine ⟨heard, ?_, ?_, ?_⟩
  · obtain ⟨log, h⟩ := conclude_eq s
    rw [h]
    exact error
  · rw [State.unheard, conclude_ends]
    exact all
  · rw [← told]
    cases h : s.supervisor.error <;> simp [State.conclude, State.closing, State.record, h]

theorem unended_setWorker {index : ℕ} {w : Worker} (worker : s.workers[index]? = some w)
    (opened : w.released = false) (next : Worker) :
    (s.setWorker index next).unended + (if next.released then 1 else 0) = s.unended := by
  obtain ⟨hindex, rfl⟩ := List.getElem?_eq_some_iff.1 worker
  have hpos : 0 < s.workers.countP fun w => !w.released :=
    List.countP_pos_iff.2 ⟨_, List.mem_of_getElem? worker, by simpa using opened⟩
  simp only [State.unended, State.setWorker, List.countP_set hindex, opened, Bool.not_false,
    if_true]
  cases next.released <;> simp [State.closed] <;> omega

theorem dropped_setWorker {index : ℕ} {w : Worker} (worker : s.workers[index]? = some w)
    (opened : w.released = false) (next : Worker) :
    (s.setWorker index next).dropped = s.dropped + if next.activity = .stopped true then 1 else 0 := by
  obtain ⟨hindex, rfl⟩ := List.getElem?_eq_some_iff.1 worker
  have hne : s.workers[index].activity ≠ .stopped true := by
    intro stopped
    simp [Worker.released, stopped] at opened
  simp only [State.dropped, State.setWorker, List.countP_set hindex, decide_eq_true_eq, hne,
    if_false, Nat.sub_zero]

/-- A number of tasks were cancelled and have come to the ears of the supervisor: after the signal all
that have ended, when ingestion has ended the workers that were dropped. -/
def Cancels (base : List Record) (errors : List RunError) (s t : State) : Prop :=
  ∃ count, Told base (errors ++ List.replicate count .cancelled) t ∧
    (s.signal = true → count + t.unended = s.unended) ∧
    (s.closed = true → s.dropped + count = t.dropped)

theorem Told.cancels_none (h : Told base errors t) (unended : t.unended = s.unended)
    (dropped : t.dropped = s.dropped) : Cancels base errors s t := by
  refine ⟨0, by rwa [List.replicate_zero, List.append_nil], fun _ => ?_, fun _ => ?_⟩
  · rw [Nat.zero_add, unended]
  · rw [Nat.add_zero, dropped]

/-- After the signal ingestion ends as cancelled, unless a broadcast is complete. -/
theorem Told.ingestionStep (h : Told base errors s) (raised : s.signal = true)
    (step : IngestionStep s t) : Cancels base errors s t := by
  have running : ¬ s.closed = true := fun closed => step.running (closed_iff.1 closed)
  cases step with
  | cancel =>
    refine ⟨1, h.ends [.ingestion (.error .cancelled)] rfl rfl rfl rfl, fun _ => ?_,
      fun closed => absurd closed running⟩
    rw [State.unended, State.unended, if_pos (closed_iff.2 rfl), if_neg running]
    exact (Nat.zero_add _).symm ▸ rfl
  | finish placing =>
    refine Told.cancels_none h ?_ rfl
    rw [State.unended, State.unended, if_neg running, if_neg]
    · rfl
    · simp [closed_iff]
  | exhaust _ quiet | skip _ quiet | tag _ quiet | pause _ quiet | fail _ quiet | resume _ quiet
  | dead _ quiet | push _ quiet =>
    rw [raised] at quiet; cases quiet

/-- A worker that stops because of the signal is one more that was cancelled. -/
theorem Told.workerStep (h : Told base errors s) {index : ℕ} {w next : Worker}
    (worker : s.workers[index]? = some w) (step : w.Step s.now s.signal s.closed next)
    (whole : next.Whole) : Cancels base errors s (s.setWorker index next) := by
  have unended := unended_setWorker worker step.opened next
  have dropped := dropped_setWorker worker step.opened next
  rcases step.release whole with released | ⟨-, rfl⟩
  · have none : workerEnds index next = [] := by
      unfold Worker.released at released
      unfold workerEnds workerEnd?
      split at released <;> simp_all
    have stays : next.activity ≠ .stopped true := by
      intro stopped
      simp [Worker.released, stopped] at released
    have told : Told base (errors ++ [].filterMap TaskEnd.error?) (s.setWorker index next) :=
      h.ends [] (by rw [State.setWorker, none]) rfl rfl rfl
    rw [List.filterMap_nil, List.append_nil] at told
    refine told.cancels_none ?_ ?_
    · simpa [released] using unended
    · rw [dropped, if_neg stays, Nat.add_zero]
  · have stops : (w.stop s.signal).activity = .stopped s.signal := rfl
    rw [stops] at dropped
    cases hsignal : s.signal with
    | true =>
      refine ⟨1, h.ends [.worker index (.error .cancelled)] rfl rfl rfl rfl, fun _ => ?_,
        fun _ => ?_⟩
      · rw [hsignal, Worker.stop_released, if_pos rfl] at unended
        omega
      · rw [hsignal, if_pos rfl] at dropped
        exact dropped.symm
    | false =>
      refine ⟨0, h.ends [.worker index (.ok w.stats)] rfl rfl rfl rfl, fun raised => ?_,
        fun _ => ?_⟩
      · rw [hsignal] at raised
        cases raised
      · rw [hsignal] at dropped
        exact dropped.symm

/-- What the supervisor logs of the errors, move by move: all that come after the signal, or when
ingestion has ended, are that a task was cancelled. -/
theorem Told.happens (h : Told base errors s) (late : s.signal = true ∨ s.closed = true) {m : Move}
    (move : Happens s m t) (whole : t.Whole) : Cancels base errors s t := by
  cases move with
  | ingestion step =>
    exact h.ingestionStep (late.resolve_right fun closed => step.running (closed_iff.1 closed)) step
  | worker worker step =>
    refine h.workerStep worker step (whole _ ?_)
    exact List.mem_set (List.getElem?_eq_some_iff.1 worker).1 _
  | join busy front =>
    refine (h.join busy front).cancels_none ?_ ?_
    · simp [State.unended, State.closed]
    · simp [State.dropped]
  | conclude busy =>
    refine (h.conclude busy).cancels_none ?_ ?_
    · simp [State.unended, State.closed]
    · simp [State.dropped]
  | pass | raise => exact Told.cancels_none h rfl rfl

end Told

/-- What the supervisor has logged when it has heard of every task, and what it returns. -/
theorem Told.end {base : List Record} {first : RunError} {others : List RunError} {t : State}
    (h : Told base (first :: others) t) (register : Register t)
    (ended : t.supervisor.result.isSome = true) :
    t.supervisor.result = some (.error first) ∧
      t.log = base ++ voice (first :: others) ++ [.stopped t.setup.name first] := by
  obtain ⟨heard, error, all, told⟩ := h
  obtain ⟨result, hresult⟩ := Option.isSome_iff_exists.1 ended
  obtain ⟨-, front, -, rfl⟩ := register.result hresult
  obtain rfl : heard = first :: others := by simpa [State.unheard, front] using all
  have hverdict : t.supervisor.verdict = .error first := by
    rw [Supervisor.verdict, error]
    rfl
  rw [hverdict] at hresult
  refine ⟨hresult, ?_⟩
  rw [told, State.closing, hresult]

/-! ## The last moment -/

/-- The moment at which a relay is done that has only to wait for the calls in flight. -/
structure LastMoment (s : State) (moment : ℕ) : Prop where
  now : s.now ≤ moment
  calls : ∀ w ∈ s.workers, ∀ {finish}, w.deadline? = some finish → finish ≤ moment
  least : moment ≤ s.now ∨ ∃ w ∈ s.workers, ∃ finish, w.deadline? = some finish ∧ moment ≤ finish

theorem LastMoment.unique {s : State} {moment other : ℕ} (h : LastMoment s moment)
    (h' : LastMoment s other) : moment = other := by
  have le {a b : ℕ} (h : LastMoment s a) (h' : LastMoment s b) : a ≤ b := by
    rcases h.least with le | ⟨w, hw, finish, deadline, le⟩
    · exact le.trans h'.now
    · exact le.trans (h'.calls w hw deadline)
  exact le_antisymm (le h h') (le h' h)

/-- When the signal is raised and no task can step, the next moment is not after the end of some
call in flight. -/
theorem caller_of_stuck {s : State} {signalAt : Option ℕ} {moment : ℕ} (register : Register s)
    (raised : s.signal = true) (stuck : s.move? = none) (busy : s.supervisor.result = none)
    (next : s.nextMoment? signalAt = some moment) :
    ∃ (index : ℕ) (v : Worker) (finish : ℕ), s.workers[index]? = some v ∧
      v.deadline? = some finish ∧ moment ≤ finish := by
  have ingestion : s.stepIngestion = none := step_of_move? stuck .ingestion
  have closed : s.closed = true := by
    rw [closed_iff]
    cases hactivity : s.ingestion.activity with
    | pulling => simp [State.stepIngestion, hactivity, raised] at ingestion
    | pausing finish => simp [State.stepIngestion, hactivity, raised] at ingestion
    | placing request index =>
      cases worker : s.workers[index]? <;>
        simp [State.stepIngestion, hactivity, raised, worker] at ingestion
    | ended => rfl
  rcases busy_of_stuck register busy (step_of_move? stuck .supervisor) with hopen | ⟨v, hv, opened⟩
  · rw [closed] at hopen; cases hopen
  obtain ⟨index, worker⟩ := List.mem_iff_getElem?.1 hv
  have hstep : s.stepWorker index = none := step_of_move? stuck (.worker index)
  refine ⟨index, v, ?_⟩
  cases hactivity : v.activity with
  | idle => simp [State.stepWorker, worker, Worker.step, hactivity] at hstep
  | waiting => simp [State.stepWorker, worker, Worker.step, hactivity, raised] at hstep
  | calling request finish outcome =>
    have deadline : v.deadline? = some finish := by simp [Worker.deadline?, hactivity]
    refine ⟨finish, worker, deadline, nextMoment_le next ?_ ?_⟩
    · exact List.mem_cons_of_mem _ (List.mem_cons_of_mem _
        (List.mem_map.2 ⟨v, hv, deadline⟩))
    · simpa [State.stepWorker, worker, Worker.step, hactivity] using hstep
  | stopped | crashed => simp [Worker.released, hactivity] at opened

/-! ## After the signal -/

/-- Lists are mapped to the same if what stands in the same place is. -/
theorem map_eq_map {α β : Type} {f g : α → β} {l l' : List α} (length : l.length = l'.length)
    (same : ∀ {index : ℕ} {a : α}, l'[index]? = some a → ∃ b, l[index]? = some b ∧ f b = g a) :
    l.map f = l'.map g := by
  apply List.ext_getElem?
  intro index
  rw [List.getElem?_map, List.getElem?_map]
  cases ha : l'[index]? with
  | none =>
    rw [List.getElem?_eq_none_iff, ← length] at ha
    rw [List.getElem?_eq_none_iff.2 ha]
    rfl
  | some a =>
    obtain ⟨b, hb, eq⟩ := same ha
    rw [hb, Option.map_some, Option.map_some, eq]

/-- How a run has ended that was in a state when the signal was raised. -/
structure Halted (s t : State) : Prop where
  workers : t.workers = s.workers.map Worker.wound
  moment : LastMoment s t.now
  log : t.log = s.log ++ voice (List.replicate s.unended .cancelled) ++
    [.stopped s.setup.name .cancelled]
  result : t.supervisor.result = some (.error .cancelled)

section Halted

variable {setup : Setup} {signal : Bool} {signalAt : Option ℕ} {before moves : List Move}
  {s t : State}

theorem unheard_of_spotless (spotless : s.firstError? = none) :
    s.supervisor.error = none ∧ s.unheard = [] := by
  rw [State.firstError?, Option.or_eq_none_iff] at spotless
  refine ⟨spotless.1, List.filterMap_eq_nil_iff.2 ?_⟩
  exact List.findSome?_eq_none_iff.1 spotless.2

theorem told_of_spotless (spotless : s.firstError? = none) (busy : s.supervisor.result = none) :
    Told s.log [] s := by
  obtain ⟨error, unheard⟩ := unheard_of_spotless spotless
  refine ⟨[], error, unheard, ?_⟩
  rw [State.closing, busy]
  simp [voice]

theorem unended_eq_zero (register : Register t) (ended : t.supervisor.result.isSome = true) :
    t.unended = 0 ∧ ∀ w ∈ t.workers, w.released = true := by
  obtain ⟨result, hresult⟩ := Option.isSome_iff_exists.1 ended
  obtain ⟨-, -, all, -⟩ := register.result hresult
  obtain ⟨-, closed, released⟩ := register.all_ended all
  refine ⟨?_, released⟩
  rw [State.unended, if_pos closed, Nat.zero_add, List.countP_eq_zero]
  intro w hw
  simp [released w hw]

theorem unended_pos (busy : s.Busy) : 0 < s.unended := by
  rw [State.unended]
  rcases busy with hopen | ⟨w, hw, opened⟩
  · rw [hopen]
    exact Nat.lt_of_lt_of_le Nat.one_pos (Nat.le_add_right _ _)
  · exact Nat.lt_of_lt_of_le (List.countP_pos_iff.2 ⟨w, hw, by simpa using opened⟩)
      (Nat.le_add_left _ _)

/-- Time does not go back. -/
theorem Happens.now_le {m : Move} (move : Happens s m t) : s.now ≤ t.now := by
  cases move with
  | ingestion step => cases step <;> exact le_rfl
  | join => rw [join_now]
  | conclude => rw [conclude_now]
  | pass later => exact later
  | worker | raise => exact le_rfl

/-- If time passes only up to the end of some call that was in flight, the run ends no later. -/
theorem moment_of_run (run : RunBy (Prompt signalAt) s moves t)
    (waits : ∀ {more u moment}, RunBy (Prompt signalAt) s more u → u.move? = none →
      u.supervisor.result = none → u.nextMoment? signalAt = some moment →
      ∃ w ∈ s.workers, ∃ finish, w.deadline? = some finish ∧ moment ≤ finish) :
    s.now ≤ t.now ∧ (t.now ≤ s.now ∨
      ∃ w ∈ s.workers, ∃ finish, w.deadline? = some finish ∧ t.now ≤ finish) := by
  refine run.keeps (P := fun u => s.now ≤ u.now ∧ (u.now ≤ s.now ∨
    ∃ w ∈ s.workers, ∃ finish, w.deadline? = some finish ∧ u.now ≤ finish)) ?_
    ⟨le_rfl, .inl le_rfl⟩
  rintro moves u m v run ⟨ge, least⟩ allowed move
  have happens := happens_of_after move
  refine ⟨ge.trans happens.now_le, ?_⟩
  cases happens with
  | pass =>
    obtain ⟨stuck, busy, -, next⟩ := allowed
    exact .inr (waits run stuck busy next)
  | ingestion step => cases step <;> exact least
  | join => rwa [join_now]
  | conclude => rwa [conclude_now]
  | worker | raise => exact least

/-- Time passes up to the end of a call that was in flight when the signal was raised. -/
theorem least_of_winds {u : State} (winds : Winds s u) (register : Register u) (stuck : u.move? = none)
    (busy : u.supervisor.result = none) {moment : ℕ} (next : u.nextMoment? signalAt = some moment) :
    ∃ w ∈ s.workers, ∃ finish, w.deadline? = some finish ∧ moment ≤ finish := by
  obtain ⟨index, v, finish, worker, deadline, le⟩ :=
    caller_of_stuck register winds.signal stuck busy next
  have hindex := (List.getElem?_eq_some_iff.1 worker).1
  rw [winds.length] at hindex
  have before := List.getElem?_eq_getElem hindex
  obtain ⟨v', hv', winding⟩ := winds.workers before
  obtain rfl : v = v' := Option.some.inj (worker.symm.trans hv')
  rw [winding.calling deadline] at deadline
  exact ⟨_, List.mem_of_getElem? before, finish, deadline, le⟩

/-- What the supervisor hears after the signal: that the tasks were cancelled that had not ended. -/
theorem told_of_run (raised : s.signal = true) (told : Told s.log [] s) (run : Run s moves t)
    (whole : t.Whole) :
    ∃ count, Told s.log (List.replicate count .cancelled) t ∧ count + t.unended = s.unended := by
  induction run with
  | start => exact ⟨0, told, Nat.zero_add _⟩
  | next run move ih =>
    have happens := happens_of_after move
    obtain ⟨count, told, hcount⟩ := ih (happens.whole whole)
    have raised := run.signal raised
    obtain ⟨more, told, hmore, -⟩ := told.happens (.inl raised) happens whole
    rw [List.replicate_append_replicate] at told
    have := hmore raised
    exact ⟨_, told, by omega⟩

/-- How a run ends after the signal. -/
theorem halted_of_run (first : Run (.start setup signal) before s) (raised : s.signal = true)
    (spotless : s.firstError? = none) (busy : s.Busy) (run : RunBy (Prompt signalAt) s moves t)
    (ended : t.supervisor.result.isSome = true) (whole : t.Whole) : Halted s t := by
  have registers {moves : List Move} {u : State} (run : RunBy (Prompt signalAt) s moves u) :
      Register u := register_of_run (first.append run.run)
  have winds := winds_of_run raised run.run
  obtain ⟨now, least⟩ := moment_of_run run fun run stuck busy next =>
    least_of_winds (winds_of_run raised run.run) (registers run) stuck busy next
  obtain ⟨none, released⟩ := unended_eq_zero (registers run) ended
  have becomes {index : ℕ} {w : Worker} (worker : s.workers[index]? = some w) :
      ∃ v, t.workers[index]? = some v ∧ w.Winding t.now v ∧ v.released = true := by
    obtain ⟨v, hv, winding⟩ := winds.workers worker
    exact ⟨v, hv, winding, released v (List.mem_of_getElem? hv)⟩
  -- at least one task had not ended, and so at least one error is heard of
  obtain ⟨count, told, hcount⟩ := told_of_run raised
    (told_of_spotless spotless ((register_of_run first).result_eq_none busy)) run.run whole
  rw [none, Nat.add_zero] at hcount
  subst hcount
  obtain ⟨others, hothers⟩ := Nat.exists_eq_succ_of_ne_zero (unended_pos busy).ne'
  rw [hothers, List.replicate_succ] at told
  obtain ⟨result, log⟩ := told.end (registers run) ended
  refine ⟨?_, ⟨now, ?_, least⟩, ?_, result⟩
  · rw [← List.map_id t.workers]
    refine map_eq_map winds.length fun worker => ?_
    obtain ⟨v, hv, winding, hreleased⟩ := becomes worker
    exact ⟨v, hv, winding.eq_wound (whole v (List.mem_of_getElem? hv)) hreleased⟩
  · intro w hw finish deadline
    obtain ⟨index, worker⟩ := List.mem_iff_getElem?.1 hw
    obtain ⟨v, -, winding, hreleased⟩ := becomes worker
    exact winding.due deadline hreleased
  · rw [log, hothers, List.replicate_succ, run.run.setup]

end Halted

/-! ## After a failure -/

/-- What has become of a worker since the feed failed. -/
inductive Parting (w : Worker) (signal : Bool) (now : ℕ) (v : Worker) : Prop
  | winding (winding : w.Winding now v) (still : signal = false → w.deadline? ≠ none → v = w)
  /-- It was not in a call, and saw its closed queue before the signal. -/
  | drained (free : w.deadline? = none) (done : v = w.awake.stop false)

theorem Parting.step {w v next : Worker} {signal : Bool} {now : ℕ} (h : Parting w signal now v)
    (rest : signal = false → w.atRest now = true) (opened : w.released = false)
    (step : v.Step now signal true next) : Parting w signal now next := by
  have running := step.opened
  cases h with
  | drained free done => rw [done] at running; cases running
  | winding winding still =>
    cases signal with
    | true => exact .winding (winding.step step) nofun
    | false =>
      have atRest := rest rfl
      cases deadline : w.deadline? with
      | some finish =>
        obtain rfl := still rfl (by simp [deadline])
        obtain ⟨request, outcome, calling⟩ := Worker.deadline?_eq_some.1 deadline
        have later := Worker.lt_of_atRest atRest deadline
        cases step with
        | begin fresh => rw [calling] at fresh; cases fresh
        | cancel waiting | call waiting | drained waiting => rw [calling] at waiting; cases waiting
        | conclude calling' due =>
          rw [calling] at calling'
          cases calling'
          omega
      | none =>
        have queue := Worker.queue_of_atRest atRest opened deadline
        cases step with
        | begin fresh =>
          rcases winding.eq_or with rfl | ready | released
          · exact .winding (.begun fresh) fun _ busy => absurd deadline busy
          · rw [fresh] at ready; cases ready
          · rw [running] at released; cases released
        | cancel waiting raised => cases raised
        | call waiting quiet front =>
          rcases winding.queue with same | ⟨released, -⟩
          · rw [same, queue] at front; cases front
          · rw [running] at released; cases released
        | drained waiting quiet front ended =>
          exact .drained deadline (by rw [winding.eq_awake deadline waiting])
        | conclude calling due =>
          have deadline' := Worker.deadline?_eq_some.2 ⟨_, _, calling⟩
          rw [winding.calling deadline', deadline] at deadline'
          cases deadline'

/-- How a relay goes on after a failure of the feed. -/
structure Falling (s u : State) : Prop where
  closed : u.closed = true
  /-- Until the supervisor has heard of the failure no time passes. -/
  hush : u.signal = false → u.now = s.now ∧ u.supervisor.error = none
  length : u.workers.length = s.workers.length
  workers : ∀ {index : ℕ} {w : Worker}, s.workers[index]? = some w →
    ∃ v, u.workers[index]? = some v ∧ Parting w u.signal u.now v

theorem Parting.later {w v : Worker} {signal after : Bool} {now then' : ℕ}
    (h : Parting w signal now v) (quieter : after = false → signal = false) (le : now ≤ then') :
    Parting w after then' v := by
  cases h with
  | winding winding still =>
    exact .winding (winding.later le) fun quiet => still (quieter quiet)
  | drained free done => exact .drained free done

section Falling

variable {s u v : State} {m : Move}

/-- The workers are left alone. -/
theorem Falling.leave (h : Falling s u) (workers : v.workers = u.workers)
    (closed : v.closed = u.closed) (now : u.now ≤ v.now)
    (quieter : v.signal = false → u.signal = false)
    (hush : v.signal = false → v.now = s.now ∧ v.supervisor.error = none) : Falling s v where
  closed := closed.trans h.closed
  hush := hush
  length := by rw [workers, h.length]
  workers worker := by
    obtain ⟨w, hw, parting⟩ := h.workers worker
    exact ⟨w, workers ▸ hw, parting.later quieter now⟩

theorem Falling.join (h : Falling s u) (busy : u.supervisor.result = none) {e : TaskEnd}
    {rest : List TaskEnd} (front : u.ends = e :: rest) :
    Falling s ({ u with ends := rest, supervisor.joined := u.supervisor.joined + 1 }.join e) := by
  have move := Happens.join busy front
  have quieter : ({ u with ends := rest, supervisor.joined :=
      u.supervisor.joined + 1 }.join e).signal = false → u.signal = false := by
    intro quiet
    by_contra raised
    rw [move.signal (by simpa using raised)] at quiet
    cases quiet
  refine h.leave (by simp) (by simp [State.closed]) (by simp) quieter fun quiet => ?_
  obtain ⟨now, error⟩ := h.hush (quieter quiet)
  refine ⟨by rw [join_now]; exact now, ?_⟩
  have hears (e' : RunError) :
      ({ u with ends := rest, supervisor.joined := u.supervisor.joined + 1 }.hear e').signal =
        true := by
    obtain ⟨log, hhear⟩ := hear_eq
      { u with ends := rest, supervisor.joined := u.supervisor.joined + 1 } e'
    rw [hhear]
    simp [error]
  cases e with
  | ingestion result =>
    cases result with
    | ok => exact error
    | error e' => exact absurd quiet (by simpa [State.join] using hears e')
  | worker index result =>
    cases result with
    | ok => exact error
    | error e' => exact absurd quiet (by simpa [State.join] using hears e')

theorem Falling.happens (h : Falling s u) (opened : ∀ w ∈ s.workers, w.released = false)
    (rest : ∀ w ∈ s.workers, w.atRest s.now = true)
    (passes : ∀ moment, m = .pass moment → u.signal = true) (move : Happens u m v) :
    Falling s v := by
  cases move with
  | ingestion step => exact absurd (closed_iff.1 h.closed) step.running
  | @worker index w next worker step =>
    refine ⟨h.closed, h.hush, List.length_set.trans h.length, ?_⟩
    intro i w₀ hw₀
    obtain ⟨v, hv, parting⟩ := h.workers hw₀
    by_cases hi : index = i
    · subst hi
      obtain rfl : w = v := Option.some.inj (worker.symm.trans hv)
      rw [h.closed] at step
      have hmem := List.mem_of_getElem? hw₀
      have stays : u.signal = false → w₀.atRest u.now = true := fun quiet => by
        rw [(h.hush quiet).1]
        exact rest w₀ hmem
      exact ⟨next, List.getElem?_set_self (List.getElem?_eq_some_iff.1 worker).1,
        parting.step stays (opened w₀ hmem) step⟩
    · exact ⟨v, by rw [State.setWorker, List.getElem?_set_ne hi, hv], parting⟩
  | join busy front => exact h.join busy front
  | conclude =>
    obtain ⟨log, hconclude⟩ := conclude_eq u
    exact h.leave (by simp) (by simp [State.closed]) (by simp) (by simp [hconclude])
      (by simp [hconclude])
  | pass later =>
    have raised : u.signal = true := passes _ rfl
    exact h.leave rfl rfl later id fun quiet => absurd (raised.symm.trans quiet) (by simp)
  | raise =>
    refine h.leave rfl rfl le_rfl ?_ ?_ <;> intro quiet <;> cases quiet

/-- When no task can step after a failure of the feed, the supervisor has heard of it. -/
theorem Falling.raised (h : Falling s u) {e : RunError} (first : u.firstError? = some e)
    (stuck : u.move? = none) (busy : u.supervisor.result = none) : u.signal = true := by
  by_contra quiet
  obtain ⟨-, error⟩ := h.hush (by simpa using quiet)
  have supervisor : u.stepSupervisor = none := step_of_move? stuck .supervisor
  rw [State.firstError?, error, Option.none_or] at first
  cases front : u.ends with
  | nil => rw [front] at first; cases first
  | cons e rest => simp [State.stepSupervisor, busy, front] at supervisor

/-- Time passes up to the end of a call that was in flight when the feed failed. -/
theorem Falling.waits (h : Falling s u) {e : RunError} (first : u.firstError? = some e)
    (register : Register u) (stuck : u.move? = none) (busy : u.supervisor.result = none)
    {signalAt : Option ℕ} {moment : ℕ} (next : u.nextMoment? signalAt = some moment) :
    ∃ w ∈ s.workers, ∃ finish, w.deadline? = some finish ∧ moment ≤ finish := by
  have raised := h.raised first stuck busy
  obtain ⟨index, v, finish, worker, deadline, le⟩ :=
    caller_of_stuck register raised stuck busy next
  have hindex := (List.getElem?_eq_some_iff.1 worker).1
  rw [h.length] at hindex
  have before := List.getElem?_eq_getElem hindex
  obtain ⟨v', hv', parting⟩ := h.workers before
  obtain rfl : v = v' := Option.some.inj (worker.symm.trans hv')
  cases parting with
  | winding winding =>
    rw [winding.calling deadline] at deadline
    exact ⟨_, List.mem_of_getElem? before, finish, deadline, le⟩
  | drained free done => rw [done] at deadline; cases deadline

end Falling

/-- How a run has ended whose feed failed in a state. -/
structure Fallen (s : State) (error : FeedError) (t : State) : Prop where
  length : t.workers.length = s.workers.length
  /-- A worker that was not in a call may have seen its closed queue before the signal. -/
  workers : ∀ {index : ℕ} {w : Worker}, s.workers[index]? = some w →
    ∃ v, t.workers[index]? = some v ∧
      (v = w.wound ∨ w.deadline? = none ∧ v = w.awake.stop false)
  moment : LastMoment s t.now
  log : t.log = s.log ++ [.feedFailed error] ++
    voice (.feed error :: List.replicate t.dropped .cancelled) ++
      [.stopped s.setup.name (.feed error)]
  result : t.supervisor.result = some (.error (.feed error))

/-- The state when the feed has just failed. -/
theorem falling_of_fail {s f : State} (pristine : Pristine s) (busy : s.supervisor.result = none)
    {error : FeedError} {rest : List Feed.Step} (ready : s.ingestion.activity = .pulling)
    (front : s.ingestion.feed = .fail error :: rest) (fails : s.stepIngestion = some f) :
    f.now = s.now ∧ f.workers = s.workers ∧ f.setup = s.setup ∧ Falling s f ∧
      f.firstError? = some (.feed error) ∧ Told (s.log ++ [.feedFailed error]) [.feed error] f := by
  obtain ⟨noError, -⟩ := unheard_of_spotless pristine.spotless
  have step := IngestionStep.fail ready pristine.quiet front
  obtain rfl := Option.some.inj (fails.symm.trans (step.eq pristine.quiet))
  set f := ((s.goOn .pulling rest).record (.feedFailed error)).endIngestion (.error (.feed error))
  have ends : f.ends = s.ends ++ [.ingestion (.error (.feed error))] := rfl
  have falling : Falling s f :=
    ⟨closed_iff.2 rfl, fun _ => ⟨rfl, noError⟩, rfl, fun worker =>
      ⟨_, worker, .winding .still fun _ _ => rfl⟩⟩
  have told := told_of_spotless (s := (s.goOn .pulling rest).record (.feedFailed error))
    pristine.spotless busy
  refine ⟨rfl, rfl, rfl, falling, ?_, told.ends _ ends rfl rfl rfl⟩
  rw [firstError_of_ends ends rfl, pristine.spotless]
  rfl

theorem dropped_eq_zero {s : State} (opened : ∀ w ∈ s.workers, w.released = false) :
    s.dropped = 0 := by
  rw [State.dropped, List.countP_eq_zero]
  intro w hw stopped
  have hopen := opened w hw
  simp [Worker.released, of_decide_eq_true stopped] at hopen

/-- The feed fails in a state to which a run has come, and finds all workers at rest. -/
structure FailsAtRest (setup : Setup) (signal : Bool) (s : State) (error : FeedError) (f : State) :
    Prop where
  reached : ∃ before, Run (.start setup signal) before s
  pristine : Pristine s
  ready : s.ingestion.activity = .pulling
  front : ∃ rest, s.ingestion.feed = .fail error :: rest
  fails : s.stepIngestion = some f
  atRest : ∀ w ∈ s.workers, w.atRest s.now = true

section FailsAtRest

variable {setup : Setup} {signal : Bool} {signalAt : Option ℕ} {error : FeedError} {s f t : State}
  {moves : List Move}

theorem FailsAtRest.register (h : FailsAtRest setup signal s error f)
    (run : RunBy (Prompt signalAt) f moves t) : Register t := by
  obtain ⟨before, first⟩ := h.reached
  exact register_of_run ((first.append (.single (m := .task .ingestion) h.fails)).append run.run)

theorem FailsAtRest.opened (h : FailsAtRest setup signal s error f) :
    ∀ w ∈ s.workers, w.released = false := by
  obtain ⟨before, first⟩ := h.reached
  have sound := sound_of_run first (whole_of_spotless (register_of_run first) h.pristine.spotless)
  exact fun w hw => sound.opened h.pristine.quiet (by simp [h.ready]) hw

/-- What is true when the feed has just failed. -/
theorem FailsAtRest.start (h : FailsAtRest setup signal s error f) :
    f.now = s.now ∧ f.workers = s.workers ∧ f.setup = s.setup ∧ Falling s f ∧
      f.firstError? = some (.feed error) ∧ Told (s.log ++ [.feedFailed error]) [.feed error] f := by
  obtain ⟨before, first⟩ := h.reached
  obtain ⟨rest, front⟩ := h.front
  have busy : s.supervisor.result = none :=
    (register_of_run first).result_eq_none (.inl (closed_eq_false (by simp [h.ready])))
  exact falling_of_fail h.pristine busy h.ready front h.fails

theorem FailsAtRest.falling (h : FailsAtRest setup signal s error f)
    (run : RunBy (Prompt signalAt) f moves t) : Falling s t := by
  obtain ⟨-, -, -, falling, first, -⟩ := h.start
  refine run.keeps (P := Falling s) ?_ falling
  intro moves u m v run falling allowed move
  refine falling.happens h.opened h.atRest ?_ (happens_of_after move)
  rintro moment rfl
  exact falling.raised (run.run.firstError_eq first) allowed.1 allowed.2.1

/-- The supervisor hears of the failure, and of the workers that were dropped. -/
theorem FailsAtRest.told (h : FailsAtRest setup signal s error f)
    (run : RunBy (Prompt signalAt) f moves t) (whole : t.Whole) :
    Told (s.log ++ [.feedFailed error]) (.feed error :: List.replicate t.dropped .cancelled) t := by
  obtain ⟨-, workers, -, -, -, told⟩ := h.start
  have all : t.Whole → Told (s.log ++ [.feedFailed error])
      (.feed error :: List.replicate t.dropped .cancelled) t := by
    refine run.keeps (P := fun u => u.Whole → Told (s.log ++ [.feedFailed error])
      (.feed error :: List.replicate u.dropped .cancelled) u) ?_ fun _ => ?_
    · intro moves u m v run told _ move whole
      have happens := happens_of_after move
      have closed := (h.falling run).closed
      obtain ⟨more, told, -, drops⟩ :=
        (told (happens.whole whole)).happens (.inr closed) happens whole
      rwa [List.cons_append, List.replicate_append_replicate, drops closed] at told
    · rwa [dropped_eq_zero (workers ▸ h.opened)]
  exact all whole

/-- The run ends with the last call that was in flight. -/
theorem FailsAtRest.moment (h : FailsAtRest setup signal s error f)
    (run : RunBy (Prompt signalAt) f moves t) :
    s.now ≤ t.now ∧ (t.now ≤ s.now ∨
      ∃ w ∈ s.workers, ∃ finish, w.deadline? = some finish ∧ t.now ≤ finish) := by
  obtain ⟨now, workers, -, -, first, -⟩ := h.start
  have moment := moment_of_run run fun run stuck busy next => by
    rw [workers]
    exact (h.falling run).waits (run.run.firstError_eq first) (h.register run) stuck busy next
  rwa [now, workers] at moment

/-- How a run ends after a failure of the feed that finds all workers at rest. -/
theorem fallen_of_run (h : FailsAtRest setup signal s error f)
    (run : RunBy (Prompt signalAt) f moves t) (ended : t.supervisor.result.isSome = true)
    (whole : t.Whole) : Fallen s error t := by
  obtain ⟨now, least⟩ := h.moment run
  have falling := h.falling run
  obtain ⟨-, released⟩ := unended_eq_zero (h.register run) ended
  obtain ⟨result, log⟩ := (h.told run whole).end (h.register run) ended
  obtain ⟨-, -, setups, -⟩ := h.start
  rw [run.run.setup, setups] at log
  refine ⟨falling.length, fun {index w} worker => ?_, ⟨now, fun w hw finish deadline => ?_, least⟩,
    log, result⟩
  · obtain ⟨v, hv, parting⟩ := falling.workers worker
    have hmem := List.mem_of_getElem? hv
    refine ⟨v, hv, ?_⟩
    cases parting with
    | winding winding => exact .inl (winding.eq_wound (whole v hmem) (released v hmem))
    | drained free done => exact .inr ⟨free, done⟩
  · obtain ⟨index, worker⟩ := List.mem_iff_getElem?.1 hw
    obtain ⟨v, hv, parting⟩ := falling.workers worker
    cases parting with
    | winding winding => exact winding.due deadline (released v (List.mem_of_getElem? hv))
    | drained free done => rw [free] at deadline; cases deadline

end FailsAtRest

end Relay

end TxRelay
