import TxRelay.Proofs.Relay.Delivery

/-!
# The ends of tasks

Every task that has ended is still to be heard of by the supervisor or has been heard of, once. The
first error that a task has ended with stays the first, and it is the one that the result of the run
names. When no task has ended with an error, the supervisor has the counts of every worker that it
has heard of and, with the end of ingestion, its totals.

Results:
* `firstError_of_happens`: where the first error comes from.
* `register_of_run`: what the supervisor has heard of, in any state of any run.
-/

namespace TxRelay.Relay

/-! ## The first error -/

/-- The error that a task has ended with. -/
def TaskEnd.error? : TaskEnd → Option RunError
  | .ingestion (.error e) | .worker _ (.error e) => some e
  | .ingestion (.ok _) | .worker _ (.ok _) => none

/-- The first error that a task has ended with, heard of or not. -/
def State.firstError? (s : State) : Option RunError :=
  s.supervisor.error.or (s.ends.findSome? TaskEnd.error?)

theorem firstError_of_ends {s t : State} {new : List TaskEnd} (ends : t.ends = s.ends ++ new)
    (same : t.supervisor.error = s.supervisor.error) :
    t.firstError? = s.firstError?.or (new.findSome? TaskEnd.error?) := by
  rw [State.firstError?, same, ends, List.findSome?_append, ← Option.or_assoc]
  rfl

/-- To hear of an end does not change which error was the first. -/
theorem firstError_join {s : State} {e : TaskEnd} {rest : List TaskEnd} (front : s.ends = e :: rest)
    (joined : ℕ) :
    ({ s with ends := rest, supervisor.joined := joined }.join e).firstError? = s.firstError? := by
  rw [State.firstError?, State.firstError?, front, List.findSome?_cons]
  have hear (error : RunError) :
      ({ s with ends := rest, supervisor.joined := joined }.hear error).supervisor.error =
        s.supervisor.error.or (some error) := by
    obtain ⟨_, h⟩ := hear_eq { s with ends := rest, supervisor.joined := joined } error
    rw [h]
  cases e with
  | ingestion result =>
    cases result with
    | ok totals => rfl
    | error error => simp only [State.join, hear, hear_ends, TaskEnd.error?, Option.or_assoc,
        Option.some_or]
  | worker index result =>
    cases result with
    | ok stats => rfl
    | error error => simp only [State.join, hear, hear_ends, TaskEnd.error?, Option.or_assoc,
        Option.some_or]

/-- Where the first error comes from, by the states before and after the move that ends the task. -/
inductive Origin (s t : State) : RunError → Prop
  | cancelled (raised : s.signal = true)
      (busy : s.closed = false ∨ ∃ w ∈ s.workers, w.released = false) : Origin s t .cancelled
  | queueClosed {w} (running : s.ingestion.activity ≠ .ended) (worker : w ∈ s.workers)
      (released : w.released = true) :
    Origin s t (.queueClosed w.agent.address)
  | feed {error rest} (ready : s.ingestion.activity = .pulling)
      (front : s.ingestion.feed = .fail error :: rest) (after : t.ingestion.feed = rest)
      (ended : t.ingestion.activity = .ended) :
    Origin s t (.feed error)
  | crash {index : ℕ} {w reason} (worker : t.workers[index]? = some w)
      (crashed : w.activity = .crashed reason) :
    Origin s t (.taskFailed reason)

/-- How a step of a worker ends it, if it does. -/
theorem workerEnds_cases {now : ℕ} {signal closed : Bool} {w next : Worker} (index : ℕ)
    (step : w.Step now signal closed next) :
    next.released = false ∧ workerEnds index next = [] ∨
      next.activity = .stopped true ∧ signal = true ∧
        workerEnds index next = [.worker index (.error .cancelled)] ∨
      next.activity = .stopped false ∧ workerEnds index next = [.worker index (.ok next.stats)] ∨
      ∃ reason, next.activity = .crashed reason ∧
        workerEnds index next = [.worker index (.error (.taskFailed reason))] := by
  cases step with
  | begin fresh => exact .inl ⟨rfl, rfl⟩
  | cancel waiting raised => exact .inr (.inl ⟨rfl, raised, rfl⟩)
  | call waiting quiet front => exact .inl ⟨rfl, rfl⟩
  | drained waiting quiet front ended => exact .inr (.inr (.inl ⟨rfl, rfl⟩))
  | @conclude request finish outcome calling due =>
    cases outcome with
    | verdict v => exact .inl ⟨rfl, rfl⟩
    | error e => exact .inl ⟨rfl, rfl⟩
    | crash reason => exact .inr (.inr (.inr ⟨reason, rfl, rfl⟩))

section FirstError

variable {s t : State} {m : Move}

theorem firstError_of_append {new : List TaskEnd} (ends : t.ends = s.ends ++ new)
    (same : t.supervisor.error = s.supervisor.error)
    (origin : ∀ e, new.findSome? TaskEnd.error? = some e → Origin s t e) :
    t.firstError? = s.firstError? ∨
      s.firstError? = none ∧ ∃ e, t.firstError? = some e ∧ Origin s t e := by
  have h := firstError_of_ends ends same
  cases hs : s.firstError? with
  | some first => exact .inl (by rw [h, hs, Option.some_or])
  | none =>
    rw [hs, Option.none_or] at h
    cases hn : new.findSome? TaskEnd.error? with
    | none => exact .inl (by rw [h, hn])
    | some e => exact .inr ⟨rfl, e, by rw [h, hn], origin e hn⟩

theorem firstError_of_ingestionStep (step : IngestionStep s t) :
    t.firstError? = s.firstError? ∨
      s.firstError? = none ∧ ∃ e, t.firstError? = some e ∧ Origin s t e := by
  cases step with
  | cancel running raised =>
    refine firstError_of_append rfl rfl fun e he => ?_
    cases he
    exact .cancelled raised (.inl (closed_eq_false running))
  | exhaust =>
    refine firstError_of_append rfl rfl fun e he => ?_
    cases he
  | fail ready quiet front =>
    refine firstError_of_append rfl rfl fun e he => ?_
    cases he
    exact .feed ready front rfl rfl
  | dead placing quiet worker released =>
    refine firstError_of_append rfl rfl fun e he => ?_
    cases he
    exact .queueClosed (by simp [placing]) (List.mem_of_getElem? worker) released
  | skip | tag | pause | resume | finish | push => exact .inl rfl

theorem firstError_of_happens (move : Happens s m t) :
    t.firstError? = s.firstError? ∨
      s.firstError? = none ∧ ∃ e, t.firstError? = some e ∧ Origin s t e := by
  cases move with
  | ingestion step => exact firstError_of_ingestionStep step
  | @worker index w next worker step =>
    refine firstError_of_append rfl rfl fun e he => ?_
    have hindex : index < s.workers.length := (List.getElem?_eq_some_iff.1 worker).1
    rcases workerEnds_cases index step with
      ⟨-, hends⟩ | ⟨-, raised, hends⟩ | ⟨-, hends⟩ | ⟨reason, crashed, hends⟩ <;>
      rw [hends] at he <;> cases he
    · exact .cancelled raised (.inr ⟨w, List.mem_of_getElem? worker, step.opened⟩)
    · exact .crash (List.getElem?_set_self hindex) crashed
  | join busy front => exact .inl (firstError_join front _)
  | conclude busy front all =>
    obtain ⟨log, h⟩ := conclude_eq s
    exact .inl (by rw [h]; rfl)
  | pass | raise => exact .inl rfl

/-- The first error stays the first. -/
theorem Happens.firstError_eq {e : RunError} (move : Happens s m t) (h : s.firstError? = some e) :
    t.firstError? = some e := by
  rcases firstError_of_happens move with same | ⟨spotless, -⟩
  · rw [same, h]
  · rw [h] at spotless
    cases spotless

theorem Happens.spotless (move : Happens s m t) (h : t.firstError? = none) :
    s.firstError? = none := by
  cases first : s.firstError? with
  | none => rfl
  | some e =>
    rw [move.firstError_eq first] at h
    cases h

theorem Run.firstError_eq {moves : List Move} {e : RunError} (run : Run s moves t)
    (h : s.firstError? = some e) : t.firstError? = some e :=
  run.keeps (P := fun t => t.firstError? = some e)
    (fun h move => (happens_of_after move).firstError_eq h) h

end FirstError

/-! ## What the supervisor has heard of -/

/-- The number of tasks that have ended. -/
def State.endedCount (s : State) : ℕ :=
  (if s.closed then 1 else 0) + s.workers.countP (·.released)

/-- The supervisor has heard of the tasks that have ended, but for those whose ends it has still to
hear of. -/
structure Register (s : State) : Prop where
  count : s.ends.length + s.supervisor.joined = s.endedCount
  slots : s.supervisor.workers.length = s.workers.length
  /-- Without an error a worker that has ended has drained its queue. -/
  stopped : ∀ {index : ℕ} {w : Worker}, s.workers[index]? = some w → w.released = true →
    s.firstError? = none → w.activity = .stopped false ∧
      (.worker index (.ok w.stats) ∈ s.ends ∨ s.supervisor.workers[index]? = some (some w.stats))
  pending : ∀ {index : ℕ} {stats : Worker.Stats}, .worker index (.ok stats) ∈ s.ends →
    ∃ w, s.workers[index]? = some w ∧ w.released = true ∧ stats = w.stats
  /-- Without an error ingestion that has ended has taken the whole feed and placed every request.
  -/
  exhausted : s.closed = true → s.firstError? = none →
    s.ingestion.feed = [] ∧
      s.ingestion.totals.dispatched = s.workers.length * s.ingestion.tagged.length ∧
      (.ingestion (.ok s.ingestion.totals) ∈ s.ends ∨ s.supervisor.totals = s.ingestion.totals)
  totals : ∀ {totals : Totals}, .ingestion (.ok totals) ∈ s.ends →
    s.closed = true ∧ totals = s.ingestion.totals
  result : ∀ {r}, s.supervisor.result = some r →
    s.signal = true ∧ s.ends = [] ∧ s.supervisor.joined = s.taskCount ∧ r = s.supervisor.verdict

/-- A worker that a step ends has one end, and it is the end of that worker. -/
theorem workerEnds_of_step {now : ℕ} {signal closed : Bool} {w next : Worker} (index : ℕ)
    (step : w.Step now signal closed next) :
    (workerEnds index next).length = (if next.released then 1 else 0) ∧
      (next.released = true → (workerEnds index next).findSome? TaskEnd.error? = none →
        next.activity = .stopped false ∧ .worker index (.ok next.stats) ∈ workerEnds index next) ∧
      (∀ {i stats}, .worker i (.ok stats) ∈ workerEnds index next →
        i = index ∧ next.released = true ∧ stats = next.stats) ∧
      ∀ {r}, .ingestion r ∉ workerEnds index next := by
  rcases workerEnds_cases index step with
    ⟨opened, hends⟩ | ⟨stopped, -, hends⟩ | ⟨stopped, hends⟩ | ⟨reason, crashed, hends⟩
  · simp [hends, opened]
  · simp [hends, Worker.released, stopped, TaskEnd.error?]
  · simp [hends, Worker.released, stopped]
  · simp [hends, Worker.released, crashed, TaskEnd.error?]

section Register

variable {s t : State} {m : Move}

/-- When the supervisor has heard of as many ends as there are tasks, every task has ended. -/
theorem Register.all_ended (h : Register s) (all : s.supervisor.joined = s.taskCount) :
    s.ends = [] ∧ s.closed = true ∧ ∀ w ∈ s.workers, w.released = true := by
  have hcount := h.count
  have hle : s.workers.countP (·.released) ≤ s.workers.length := List.countP_le_length
  unfold State.endedCount at hcount
  unfold State.taskCount at all
  have hclosed : s.closed = true := by
    by_contra hopen
    rw [if_neg hopen] at hcount
    omega
  rw [if_pos hclosed] at hcount
  have hends : s.ends.length = 0 := by omega
  have hworkers : s.workers.countP (·.released) = s.workers.length := by omega
  exact ⟨List.length_eq_zero_iff.1 hends, hclosed, List.countP_eq_length.1 hworkers⟩

/-- The run has no result yet while a task can go on. -/
theorem Register.result_eq_none (h : Register s)
    (busy : s.closed = false ∨ ∃ w ∈ s.workers, w.released = false) :
    s.supervisor.result = none := by
  cases hr : s.supervisor.result with
  | none => rfl
  | some r =>
    obtain ⟨-, -, all, -⟩ := h.result hr
    obtain ⟨-, hclosed, hworkers⟩ := h.all_ended all
    rcases busy with hopen | ⟨w, hw, hreleased⟩
    · rw [hclosed] at hopen; cases hopen
    · rw [hworkers w hw] at hreleased; cases hreleased

/-- Ingestion goes on and ends nothing. -/
theorem Register.goOn (h : Register s) (running : s.closed = false) (runs : t.closed = false)
    (ends : t.ends = s.ends) (supervisor : t.supervisor = s.supervisor)
    (workers : t.workers.length = s.workers.length)
    (released : t.workers.countP (·.released) = s.workers.countP (·.released))
    (same : ∀ {index : ℕ} {w : Worker}, w.released = true →
      (t.workers[index]? = some w ↔ s.workers[index]? = some w)) : Register t := by
  have hfirst : t.firstError? = s.firstError? := by rw [State.firstError?, ends, supervisor]; rfl
  constructor
  case count =>
    rw [ends, supervisor, h.count, State.endedCount, State.endedCount, running, runs, released]
  case slots =>
    rw [supervisor, workers]; exact h.slots
  case stopped =>
    intro index w hw hreleased hnone
    rw [ends, supervisor]
    exact h.stopped ((same hreleased).1 hw) hreleased (hfirst ▸ hnone)
  case pending =>
    intro index stats hmem
    rw [ends] at hmem
    obtain ⟨w, hw, hreleased, hstats⟩ := h.pending hmem
    exact ⟨w, (same hreleased).2 hw, hreleased, hstats⟩
  case exhausted =>
    intro hclosed
    rw [runs] at hclosed; cases hclosed
  case totals =>
    intro totals hmem
    rw [ends] at hmem
    have hclosed := (h.totals hmem).1
    rw [running] at hclosed; cases hclosed
  case result =>
    intro r hr
    rw [supervisor, h.result_eq_none (.inl running)] at hr
    cases hr

/-- Ingestion ends. -/
theorem Register.endIngestion (h : Register s) (running : s.closed = false)
    {result : Except RunError Totals} (closed : t.closed = true)
    (ends : t.ends = s.ends ++ [.ingestion result]) (supervisor : t.supervisor = s.supervisor)
    (workers : t.workers = s.workers)
    (ok : ∀ {totals}, result = .ok totals → totals = t.ingestion.totals ∧ t.ingestion.feed = [] ∧
      t.ingestion.totals.dispatched = t.workers.length * t.ingestion.tagged.length) :
    Register t := by
  have hfirst := firstError_of_ends ends (congrArg _ supervisor)
  constructor
  case count =>
    have hcount := h.count
    rw [State.endedCount, running] at hcount
    rw [State.endedCount, closed, workers, ends, supervisor, List.length_append]
    simp only [Bool.false_eq_true, if_false, if_true, List.length_singleton] at hcount ⊢
    omega
  case slots =>
    rw [supervisor, workers]; exact h.slots
  case stopped =>
    intro index w hw hreleased hnone
    rw [hfirst, Option.or_eq_none_iff] at hnone
    rw [workers] at hw
    obtain ⟨hstopped, hmem⟩ := h.stopped hw hreleased hnone.1
    rw [ends, supervisor]
    exact ⟨hstopped, hmem.imp_left (List.mem_append_left _)⟩
  case pending =>
    intro index stats hmem
    rw [ends, List.mem_append] at hmem
    rw [workers]
    rcases hmem with hmem | hmem
    · exact h.pending hmem
    · simp at hmem
  case exhausted =>
    intro _ hnone
    rw [hfirst, Option.or_eq_none_iff] at hnone
    cases result with
    | error e => cases hnone.2
    | ok totals =>
      obtain ⟨rfl, hfeed, hdispatched⟩ := ok rfl
      exact ⟨hfeed, hdispatched, .inl (by simp [ends])⟩
  case totals =>
    intro totals hmem
    rw [ends, List.mem_append] at hmem
    rcases hmem with hmem | hmem
    · have hclosed := (h.totals hmem).1
      rw [running] at hclosed; cases hclosed
    · simp only [List.mem_singleton, TaskEnd.ingestion.injEq] at hmem
      exact ⟨closed, (ok hmem.symm).1⟩
  case result =>
    intro r hr
    rw [supervisor, h.result_eq_none (.inl running)] at hr
    cases hr

theorem Register.setWorker (h : Register s) {index : ℕ} {w next : Worker}
    (worker : s.workers[index]? = some w) (step : w.Step s.now s.signal s.closed next) :
    Register (s.setWorker index next) := by
  obtain ⟨hlength, hdone, hmine, hnot⟩ := workerEnds_of_step index step
  have hopen := step.opened
  obtain ⟨hindex, hget⟩ := List.getElem?_eq_some_iff.1 worker
  have hfirst := firstError_of_ends (s := s) (t := s.setWorker index next) rfl rfl
  have hother {j : ℕ} (hj : index ≠ j) : (s.workers.set index next)[j]? = s.workers[j]? :=
    List.getElem?_set_ne hj
  constructor
  case count =>
    have hcount := h.count
    have hclosed : (s.setWorker index next).closed = s.closed := rfl
    have hreleased : (s.setWorker index next).workers.countP (·.released) =
        s.workers.countP (·.released) + if next.released then 1 else 0 := by
      simp [State.setWorker, List.countP_set hindex, hget, hopen]
    rw [State.endedCount] at hcount ⊢
    rw [hclosed, hreleased]
    simp only [State.setWorker, List.length_append, hlength]
    omega
  case slots =>
    simpa [State.setWorker] using h.slots
  case stopped =>
    intro j v hv hreleased hnone
    rw [hfirst, Option.or_eq_none_iff] at hnone
    simp only [State.setWorker] at hv ⊢
    by_cases hj : index = j
    · subst hj
      obtain rfl : next = v := by simpa [hindex] using hv
      obtain ⟨hstopped, hmem⟩ := hdone hreleased hnone.2
      exact ⟨hstopped, .inl (List.mem_append_right _ hmem)⟩
    · rw [hother hj] at hv
      obtain ⟨hstopped, hmem⟩ := h.stopped hv hreleased hnone.1
      exact ⟨hstopped, hmem.imp_left (List.mem_append_left _)⟩
  case pending =>
    intro j stats hmem
    simp only [State.setWorker, List.mem_append] at hmem ⊢
    rcases hmem with hmem | hmem
    · obtain ⟨v, hv, hreleased, hstats⟩ := h.pending hmem
      have hj : index ≠ j := by
        rintro rfl
        obtain rfl : w = v := Option.some.inj (worker.symm.trans hv)
        rw [hopen] at hreleased; cases hreleased
      exact ⟨v, by rw [hother hj, hv], hreleased, hstats⟩
    · obtain ⟨rfl, hreleased, hstats⟩ := hmine hmem
      exact ⟨next, by simp [hindex], hreleased, hstats⟩
  case exhausted =>
    intro hclosed hnone
    rw [hfirst, Option.or_eq_none_iff] at hnone
    obtain ⟨hfeed, hdispatched, hmem⟩ := h.exhausted hclosed hnone.1
    refine ⟨hfeed, ?_, hmem.imp_left (List.mem_append_left _)⟩
    simpa [State.setWorker] using hdispatched
  case totals =>
    intro totals hmem
    simp only [State.setWorker, List.mem_append] at hmem
    exact h.totals (hmem.resolve_right hnot)
  case result =>
    intro r hr
    have hnone := h.result_eq_none (.inr ⟨w, List.mem_of_getElem? worker, hopen⟩)
    simp only [State.setWorker, hnone] at hr
    cases hr

/-- What the supervisor keeps of the end of a task, apart from an error. -/
theorem join_supervisor (s : State) (e : TaskEnd) :
    (s.join e).supervisor.joined = s.supervisor.joined ∧
      (s.join e).supervisor.result = s.supervisor.result ∧
      (s.join e).supervisor.workers =
        (match e with
          | .worker index (.ok stats) => s.supervisor.workers.set index (some stats)
          | _ => s.supervisor.workers) ∧
      (s.join e).supervisor.totals =
        (match e with
          | .ingestion (.ok totals) => totals
          | _ => s.supervisor.totals) := by
  cases e with
  | ingestion result =>
    cases result with
    | ok totals => exact ⟨rfl, rfl, rfl, rfl⟩
    | error error =>
      obtain ⟨_, h⟩ := hear_eq s error
      have hjoin : s.join (.ingestion (.error error)) = _ := h
      rw [hjoin]
      exact ⟨rfl, rfl, rfl, rfl⟩
  | worker index result =>
    cases result with
    | ok stats => exact ⟨rfl, rfl, rfl, rfl⟩
    | error error =>
      obtain ⟨_, h⟩ := hear_eq s error
      have hjoin : s.join (.worker index (.error error)) = _ := h
      rw [hjoin]
      exact ⟨rfl, rfl, rfl, rfl⟩

theorem Register.join (h : Register s) (busy : s.supervisor.result = none) {e : TaskEnd}
    {rest : List TaskEnd} (front : s.ends = e :: rest) :
    Register
      ({ s with ends := rest, supervisor.joined := s.supervisor.joined + 1 }.join e) := by
  have hfirst := firstError_join front (s.supervisor.joined + 1)
  obtain ⟨hjoined, hresult, hworkers, htotals⟩ :=
    join_supervisor { s with ends := rest, supervisor.joined := s.supervisor.joined + 1 } e
  have hkept : ∀ {x}, x ∈ rest → x ∈ s.ends := fun hx => front ▸ List.mem_cons_of_mem _ hx
  constructor
  case count =>
    have hcount := h.count
    rw [front, List.length_cons] at hcount
    rw [hjoined, join_ends, State.endedCount, State.closed, join_ingestion, join_workers]
    change rest.length + (s.supervisor.joined + 1) = s.endedCount
    omega
  case slots =>
    rw [hworkers, join_workers]
    split
    · simpa using h.slots
    · exact h.slots
  case stopped =>
    intro index w hw hreleased hnone
    rw [join_workers] at hw
    obtain ⟨hstopped, hmem⟩ := h.stopped hw hreleased (hfirst ▸ hnone)
    refine ⟨hstopped, ?_⟩
    rw [join_ends, hworkers]
    rw [front, List.mem_cons] at hmem
    have hslot : index < s.supervisor.workers.length :=
      h.slots ▸ (List.getElem?_eq_some_iff.1 hw).1
    rcases hmem with (rfl | hmem) | hslots
    · exact .inr (by simp [hslot])
    · exact .inl hmem
    · right
      split
      next i stats =>
        by_cases hi : i = index
        · -- the end heard of now is the same worker's, with the same counts
          subst hi
          obtain ⟨v, hv, -, rfl⟩ := h.pending (front ▸ List.mem_cons_self)
          obtain rfl : w = v := Option.some.inj (hw.symm.trans hv)
          simp [hslot]
        · rw [List.getElem?_set_ne hi]; exact hslots
      next => exact hslots
  case pending =>
    intro index stats hmem
    rw [join_ends] at hmem
    rw [join_workers]
    exact h.pending (hkept hmem)
  case exhausted =>
    intro hclosed hnone
    simp only [State.closed, join_ingestion] at hclosed
    obtain ⟨hfeed, hdispatched, hmem⟩ := h.exhausted hclosed (hfirst ▸ hnone)
    rw [join_ingestion, join_workers, join_ends, htotals]
    refine ⟨hfeed, hdispatched, ?_⟩
    rw [front, List.mem_cons] at hmem
    rcases hmem with (rfl | hmem) | hsame
    · exact .inr rfl
    · exact .inl hmem
    · right
      split
      next totals => exact (h.totals (front ▸ List.mem_cons_self)).2
      next => exact hsame
  case totals =>
    intro totals hmem
    rw [join_ends] at hmem
    simp only [State.closed, join_ingestion]
    exact h.totals (hkept hmem)
  case result =>
    intro r hr
    rw [hresult] at hr
    exact absurd hr (by simp [busy])

theorem Register.conclude (h : Register s) (front : s.ends = [])
    (all : s.supervisor.joined = s.taskCount) : Register s.conclude := by
  obtain ⟨log, hs⟩ := conclude_eq s
  rw [hs]
  refine ⟨h.count, h.slots, h.stopped, h.pending, h.exhausted, h.totals, fun hr => ?_⟩
  cases hr
  exact ⟨rfl, front, all, rfl⟩

theorem Register.push (h : Register s) {request : Request} {index : ℕ} {w : Worker}
    (placing : s.ingestion.activity = .placing request index)
    (worker : s.workers[index]? = some w) (opened : w.released = false) :
    Register (s.push request index w) := by
  obtain ⟨hindex, hget⟩ := List.getElem?_eq_some_iff.1 worker
  have hopen : Worker.released { w with queue := w.queue ++ [request] } = false := opened
  refine h.goOn (closed_eq_false (by simp [placing])) (closed_eq_false (by simp)) rfl rfl ?_ ?_ ?_
  · simp [State.push]
  · simp [State.push, List.countP_set hindex, hget, opened, hopen]
  · intro j v hreleased
    simp only [State.push]
    by_cases hj : index = j
    · subst hj
      constructor
      · intro hv
        obtain rfl := Option.some.inj ((List.getElem?_set_self hindex).symm.trans hv)
        rw [hopen] at hreleased; cases hreleased
      · intro hv
        obtain rfl : w = v := Option.some.inj (worker.symm.trans hv)
        rw [opened] at hreleased; cases hreleased
    · rw [List.getElem?_set_ne hj]

theorem Register.ingestionStep (h : Register s) {full next : ℕ} (delivery : Delivery s full next)
    (step : IngestionStep s t) : Register t := by
  cases step with
  | cancel running raised =>
    exact h.endIngestion (closed_eq_false running) (closed_iff.2 rfl) rfl rfl rfl (by simp)
  | exhaust ready quiet front =>
    refine h.endIngestion (closed_eq_false (by simp [ready])) (closed_iff.2 rfl) rfl rfl rfl ?_
    intro totals htotals
    cases htotals
    refine ⟨rfl, front, ?_⟩
    have hlength := delivery.broadcast.ready ready
    have hdispatched := delivery.broadcast.dispatched
    rcases delivery.broadcast.tagged with ⟨-, rfl⟩ | hmore
    · rwa [← hlength, Nat.add_zero] at hdispatched
    · omega
  | fail ready quiet front =>
    have running := closed_eq_false (s := s) (by simp [ready])
    exact h.endIngestion running (closed_iff.2 rfl) rfl rfl rfl (by simp)
  | dead placing quiet worker released =>
    have running := closed_eq_false (s := s) (by simp [placing])
    exact h.endIngestion running (closed_iff.2 rfl) rfl rfl rfl (by simp)
  | skip ready quiet front bad =>
    have running := closed_eq_false (s := s) (by simp [ready])
    exact h.goOn running (closed_eq_false (by simp)) rfl rfl rfl rfl fun _ => Iff.rfl
  | tag ready quiet front good =>
    have running := closed_eq_false (s := s) (by simp [ready])
    exact h.goOn running (closed_eq_false (by simp)) rfl rfl rfl rfl fun _ => Iff.rfl
  | pause ready quiet front =>
    have running := closed_eq_false (s := s) (by simp [ready])
    exact h.goOn running (closed_eq_false (by simp)) rfl rfl rfl rfl fun _ => Iff.rfl
  | resume paused quiet due =>
    have running := closed_eq_false (s := s) (by simp [paused])
    exact h.goOn running (closed_eq_false (by simp)) rfl rfl rfl rfl fun _ => Iff.rfl
  | finish placing done =>
    have running := closed_eq_false (s := s) (by simp [placing])
    exact h.goOn running (closed_eq_false (by simp)) rfl rfl rfl rfl fun _ => Iff.rfl
  | push placing quiet worker opened room => exact h.push placing worker opened

theorem Register.happens (h : Register s) {full next : ℕ} (delivery : Delivery s full next)
    (move : Happens s m t) : Register t := by
  cases move with
  | ingestion step => exact h.ingestionStep delivery step
  | worker worker step => exact h.setWorker worker step
  | join busy front => exact h.join busy front
  | conclude busy front all => exact h.conclude front all
  | pass => exact ⟨h.count, h.slots, h.stopped, h.pending, h.exhausted, h.totals, h.result⟩
  | raise =>
    refine ⟨h.count, h.slots, h.stopped, h.pending, h.exhausted, h.totals, fun hr => ?_⟩
    exact ⟨rfl, (h.result hr).2⟩

end Register

theorem register_start (setup : Setup) (signal : Bool) : Register (.start setup signal) where
  count := by
    have hnone : (State.start setup signal).workers.countP (·.released) = 0 := by
      rw [List.countP_eq_zero]
      intro w hw
      obtain ⟨index, hindex⟩ := List.mem_iff_getElem?.1 hw
      obtain ⟨agent, -, rfl⟩ := worker_start hindex
      simp
    rw [State.endedCount, hnone]
    rfl
  slots := by
    rw [start_workers]
    exact List.length_replicate
  stopped hw hreleased := by
    obtain ⟨agent, -, rfl⟩ := worker_start hw
    cases hreleased
  pending := by simp [State.start]
  exhausted := by simp [State.closed]
  totals := by simp [State.start]
  result := by simp [State.start, Supervisor.fresh]

/-- What the supervisor has heard of, in any state of any run. -/
theorem register_of_run {setup : Setup} {signal : Bool} {moves : List Move} {t : State}
    (run : Run (.start setup signal) moves t) : Register t := by
  have h := run.keeps (P := fun t => Register t ∧ ∃ full next, Delivery t full next)
    (fun ⟨h, _, _, delivery⟩ move =>
      ⟨h.happens delivery (happens_of_after move), delivery.happens (happens_of_after move)⟩)
    ⟨register_start setup signal, 0, 0, delivery_start setup signal⟩
  exact h.1

/-- A result names the first error, and there is none when the run ended well. -/
theorem Register.result_eq {t : State} (h : Register t) {r : Except RunError Summary}
    (result : t.supervisor.result = some r) :
    (∀ {e}, r = .error e ↔ t.firstError? = some e) ∧
      ((∃ summary, r = .ok summary) ↔ t.firstError? = none) := by
  obtain ⟨-, hends, -, rfl⟩ := h.result result
  have hfirst : t.firstError? = t.supervisor.error := by simp [State.firstError?, hends]
  rw [hfirst, Supervisor.verdict]
  cases t.supervisor.error with
  | none => simp
  | some first => simp

end TxRelay.Relay
