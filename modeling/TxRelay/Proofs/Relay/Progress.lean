import TxRelay.Proofs.Relay.Ends

/-!
# A run gets to its result

A relay that goes on by itself either lets a task step or waits up to the next moment at which
something happens. Every step leaves less work, a step makes at most one thing happen later, and a
wait ends with one thing less to wait for; so a relay does not go on for ever. It does not get stuck
before it has a result unless the feed goes quiet and the signal is not raised.

Results:
* `step_lt`: every step of a task leaves less work.
* `goes_on`: in any state of any run without a result the relay can go on.
* `inevitable_result`: whatever the order of the steps, the relay gets to a result.
-/

namespace TxRelay.Relay

/-! ## Less work -/

section Work

variable {s t : State}

/-- The steps that workers may still take. -/
def crewWork (workers : List Worker) : ℕ :=
  workers.foldr (fun w n => w.work + n) 0

/-- The steps that a feed gives rise to among so many workers. -/
def wholeFeedWork (workers : ℕ) (feed : List Feed.Step) : ℕ :=
  feed.foldr (fun step n => feedWork workers step + n) 0

theorem work_eq (s : State) :
    s.work = s.ingestion.activity.work s.workers.length +
      wholeFeedWork s.workers.length s.ingestion.feed + crewWork s.workers +
        s.supervisor.work s.taskCount := rfl

theorem crewWork_set {workers : List Worker} {index : ℕ} {w : Worker}
    (worker : workers[index]? = some w) (next : Worker) :
    crewWork (workers.set index next) + w.work = crewWork workers + next.work := by
  induction workers generalizing index with
  | nil => cases worker
  | cons first rest ih =>
    cases index with
    | zero =>
      obtain rfl : first = w := Option.some.inj worker
      simp only [List.set_cons_zero, crewWork, List.foldr_cons]
      omega
    | succ index =>
      have h := ih (List.getElem?_cons_succ ▸ worker)
      simp only [List.set_cons_succ, crewWork, List.foldr_cons] at h ⊢
      omega

theorem wholeFeedWork_cons (workers : ℕ) (step : Feed.Step) (rest : List Feed.Step) :
    wholeFeedWork workers (step :: rest) = feedWork workers step + wholeFeedWork workers rest := rfl

theorem work_pos {activity : Activity} (running : activity ≠ .ended) (workers : ℕ) :
    0 < activity.work workers := by
  cases activity with
  | pulling | pausing => exact Nat.succ_pos _
  | placing request next => exact Nat.succ_pos _
  | ended => exact absurd rfl running

/-- Putting a request on a queue is work for the worker, but less than it was for ingestion. -/
theorem push_lt {request : Request} {index : ℕ} {w : Worker}
    (placing : s.ingestion.activity = .placing request index)
    (worker : s.workers[index]? = some w) : (s.push request index w).work < s.work := by
  have hindex : index < s.workers.length := (List.getElem?_eq_some_iff.1 worker).1
  have hcrew := crewWork_set worker { w with queue := w.queue ++ [request] }
  have hw : Worker.work { w with queue := w.queue ++ [request] } = w.work + 2 := by
    simp only [Worker.work, List.length_append, List.length_singleton]
    omega
  rw [work_eq, work_eq, placing]
  simp only [State.push, State.taskCount, List.length_set, Activity.work]
  omega

/-- Ingestion that ends has nothing more to do. -/
theorem endIngestion_lt {s : State} (running : s.ingestion.activity ≠ .ended)
    (result : Except RunError Totals) : (s.endIngestion result).work < s.work := by
  have hpos : 0 < s.ingestion.activity.work s.workers.length := work_pos running _
  have hended : Activity.ended.work s.workers.length = 0 := rfl
  rw [work_eq, work_eq]
  simp only [State.endIngestion, State.taskCount, hended]
  omega

/-- A step taken from the feed is worth more than its end. -/
theorem goOn_lt {step : Feed.Step} {rest : List Feed.Step}
    (ready : s.ingestion.activity = .pulling) (front : s.ingestion.feed = step :: rest) :
    (s.goOn .pulling rest).work < s.work := by
  have hpos : 0 < feedWork s.workers.length step := by
    cases step <;> exact Nat.succ_pos _
  rw [work_eq, work_eq, ready, front, wholeFeedWork_cons]
  simp only [State.goOn, State.taskCount, Activity.work]
  omega

theorem IngestionStep.work_lt (step : IngestionStep s t) : t.work < s.work := by
  cases step with
  | cancel running => exact endIngestion_lt running _
  | dead placing => exact endIngestion_lt (by simp [placing]) _
  | exhaust ready => exact endIngestion_lt (s := s.record _) (by simp [State.record, ready]) _
  | skip ready quiet front => exact goOn_lt ready front
  | fail ready quiet front =>
    refine lt_trans ?_ (goOn_lt ready front)
    exact endIngestion_lt (s := (s.goOn .pulling _).record _) (by simp) _
  | tag ready quiet front =>
    rw [work_eq, work_eq, ready, front, wholeFeedWork_cons]
    simp only [State.tag, State.goOn, State.record, State.taskCount, Activity.work, feedWork]
    omega
  | pause ready quiet front =>
    rw [work_eq, work_eq, ready, front, wholeFeedWork_cons]
    simp only [State.goOn, State.taskCount, Activity.work, feedWork]
    omega
  | resume paused =>
    rw [work_eq, work_eq, paused]
    simp only [State.goOn, State.taskCount, Activity.work]
    omega
  | finish placing done =>
    rw [work_eq, work_eq, placing]
    simp only [State.goOn, State.taskCount, Activity.work]
    omega
  | push placing quiet worker => exact push_lt placing worker

/-- What the supervisor hears of is one thing less to hear of. -/
theorem join_lt (h : Register s) {e : TaskEnd} {rest : List TaskEnd} (front : s.ends = e :: rest) :
    ({ s with ends := rest, supervisor.joined := s.supervisor.joined + 1 }.join e).work <
      s.work := by
  have hcount := h.count
  have hle : s.workers.countP (·.released) ≤ s.workers.length := List.countP_le_length
  have hjoined : s.supervisor.joined < s.taskCount := by
    rw [front, List.length_cons, State.endedCount] at hcount
    rw [State.taskCount]
    split_ifs at hcount <;> omega
  obtain ⟨joined, result, -, -⟩ :=
    join_supervisor { s with ends := rest, supervisor.joined := s.supervisor.joined + 1 } e
  rw [work_eq, work_eq]
  simp only [join_ingestion, join_workers, State.taskCount, Supervisor.work, joined, result] at *
  omega

/-- Every step of a task leaves less work. -/
theorem step_lt (h : Register s) {task : Task} (step : s.step task = some t) : t.work < s.work := by
  have move : Happens s (.task task) t := happens_of_after (m := .task task) step
  cases move with
  | ingestion step => exact step.work_lt
  | @worker index w next worker =>
    obtain ⟨v, after, hv, hafter, hset⟩ := State.stepWorker_eq step
    obtain rfl : w = v := Option.some.inj (worker.symm.trans hv)
    have hwork := Worker.step_work hafter
    have hcrew := crewWork_set worker after
    rw [hset, work_eq, work_eq]
    simp only [State.setWorker, State.taskCount, List.length_set]
    omega
  | join busy front => exact join_lt h front
  | conclude busy =>
    obtain ⟨log, hs⟩ := conclude_eq s
    rw [hs, work_eq, work_eq]
    simp [State.taskCount, Supervisor.work, busy]

end Work

/-! ## Things to wait for -/

section Pending

variable {s t : State}

/-- The moments up to which the feed and the workers do nothing. -/
def State.moments (s : State) : List (Option ℕ) :=
  s.feedDeadline? :: s.workers.map Worker.deadline?

/-- How many of some moments are still to come. -/
def toCome (now : ℕ) (moments : List (Option ℕ)) : ℕ :=
  moments.countP fun moment => moment.any (now < ·)

/-- How many things happen only later. -/
def State.pending (s : State) : ℕ :=
  toCome s.now s.moments

theorem toCome_set_le (now : ℕ) (moments : List (Option ℕ)) (index : ℕ) (moment : Option ℕ) :
    toCome now (moments.set index moment) ≤ toCome now moments + 1 := by
  unfold toCome
  by_cases hindex : index < moments.length
  · rw [List.countP_set hindex]
    split_ifs <;> omega
  · rw [List.set_eq_of_length_le (not_lt.1 hindex)]
    omega

/-- Time that passes up to one of the moments leaves fewer to come. -/
theorem toCome_lt {now next moment : ℕ} {moments : List (Option ℕ)}
    (h : nextMoment now moments = some next) (le : next ≤ moment) :
    toCome moment moments < toCome now moments := by
  have hmem := List.min?_mem h
  simp only [List.mem_filterMap, Option.filter_eq_some_iff, decide_eq_true_eq] at hmem
  obtain ⟨_, hmem, rfl, hlt⟩ := hmem
  obtain ⟨before, after, rfl⟩ := List.append_of_mem hmem
  have hmono (rest : List (Option ℕ)) : toCome moment rest ≤ toCome now rest := by
    refine List.countP_mono_left fun m _ hm => ?_
    cases m with
    | none => cases hm
    | some m =>
      simp only [Option.any_some, decide_eq_true_eq] at hm ⊢
      omega
  have hbefore := hmono before
  have hafter := hmono after
  unfold toCome at hbefore hafter ⊢
  simp only [List.countP_append, List.countP_cons, Option.any_some]
  rw [if_neg (by simpa using le), if_pos (by simpa using hlt)]
  omega

theorem nextMoment?_eq (s : State) : s.nextMoment? none = nextMoment s.now s.moments := rfl

/-- A step sets one of the moments at most. -/
theorem moments_of_happens {task : Task} (move : Happens s (.task task) t) :
    t.now = s.now ∧ ∃ index moment, t.moments = s.moments.set index moment := by
  have ingestion {t : State}
      (workers : t.workers.map Worker.deadline? = s.workers.map Worker.deadline?) :
      ∃ index moment, t.moments = s.moments.set index moment :=
    ⟨0, t.feedDeadline?, by rw [State.moments, State.moments, workers, List.set_cons_zero]⟩
  cases move with
  | ingestion step =>
    cases step with
    | @push request index w placing quiet worker opened room =>
      refine ⟨rfl, ingestion ?_⟩
      have hindex : index < s.workers.length := (List.getElem?_eq_some_iff.1 worker).1
      apply List.ext_getElem?
      intro i
      rw [State.push, List.getElem?_map, List.getElem?_map]
      by_cases hi : index = i
      · rw [← hi, List.getElem?_set_self hindex, worker]
        rfl
      · rw [List.getElem?_set_ne hi]
    | cancel | exhaust | skip | tag | pause | fail | resume | finish | dead =>
      exact ⟨rfl, ingestion rfl⟩
  | @worker index w next worker step =>
    refine ⟨rfl, index + 1, next.deadline?, ?_⟩
    simp [State.moments, State.setWorker, State.feedDeadline?, List.map_set]
  | join => exact ⟨by simp, ingestion (by simp)⟩
  | conclude => exact ⟨by simp, ingestion (by simp)⟩

end Pending

/-! ## Going on -/

/-- A relay goes on by itself: a task steps, or time passes up to the next moment at which something
happens, or beyond. -/
inductive Goes (s : State) : State → Prop
  | task {t} (task : Task) (step : s.step task = some t) : Goes s t
  | wait {next moment} (ahead : s.nextMoment? none = some next) (le : next ≤ moment) :
    Goes s { s with now := moment }

section Goes

variable {s t : State}

theorem Goes.run (h : Goes s t) : ∃ m, Run s [m] t ∧ m ≠ .raise := by
  cases h with
  | task task step => exact ⟨.task task, .single step, by simp⟩
  | @wait next moment ahead le =>
    have hlt : s.now < next := now_lt_of_nextMoment ahead
    exact ⟨.pass moment, .single (if_pos (hlt.le.trans le)), by simp⟩

/-- To go on leaves less to do or to wait for. -/
theorem Goes.lt (h : Goes s t) (register : Register s) :
    2 * t.work + t.pending < 2 * s.work + s.pending := by
  cases h with
  | task task step =>
    have hwork := step_lt register step
    have move := happens_of_after (m := .task task) step
    obtain ⟨now, index, moment, hmoments⟩ := moments_of_happens move
    have hpending := toCome_set_le s.now s.moments index moment
    rw [State.pending, State.pending, now, hmoments]
    omega
  | @wait next moment ahead le =>
    have hpending : State.pending { s with now := moment } < s.pending := toCome_lt ahead le
    have hwork : State.work { s with now := moment } = s.work := rfl
    omega

/-- While a task waits for a moment the relay can go on. -/
theorem goes_of_moment {finish : ℕ} (awaited : some finish ∈ s.moments) (later : s.now < finish) :
    ∃ t, Goes s t := by
  cases h : s.nextMoment? none with
  | some next => exact ⟨_, .wait h le_rfl⟩
  | none =>
    have hnone := List.min?_eq_none_iff.1 (nextMoment?_eq s ▸ h)
    have hmem : finish ∈ s.moments.filterMap fun moment => moment.filter (s.now < ·) :=
      List.mem_filterMap.2 ⟨some finish, awaited, by simp [later]⟩
    rw [hnone] at hmem
    cases hmem

/-- A worker that has something to do gets to it. -/
theorem worker_goes {index : ℕ} {w : Worker} (worker : s.workers[index]? = some w)
    (opened : w.released = false) (spur : s.signal = true ∨ w.queue ≠ [] ∨ s.closed = true) :
    ∃ t, Goes s t := by
  have able (next : Worker) (h : w.step s.now s.signal s.closed = some next) : ∃ t, Goes s t := by
    refine ⟨s.setWorker index next, .task (.worker index) ?_⟩
    simp [State.step, State.stepWorker, worker, h]
  cases hactivity : w.activity with
  | idle => exact able w.begin (by simp [Worker.step, hactivity])
  | waiting =>
    cases hsignal : s.signal with
    | true => exact able (w.stop true) (by simp [Worker.step, hactivity, hsignal])
    | false =>
      cases hqueue : w.queue with
      | cons request rest =>
        exact able (w.call s.now request rest) (by simp [Worker.step, hactivity, hsignal, hqueue])
      | nil =>
        have hclosed : s.closed = true := by simpa [hsignal, hqueue] using spur
        exact able (w.stop false) (by simp [Worker.step, hactivity, hsignal, hqueue, hclosed])
  | calling request finish outcome =>
    by_cases due : finish ≤ s.now
    · exact able (w.conclude request outcome) (by simp [Worker.step, hactivity, due])
    · refine goes_of_moment ?_ (not_le.1 due)
      have hdeadline : w.deadline? = some finish := by simp [Worker.deadline?, hactivity]
      exact List.mem_cons_of_mem _
        (hdeadline ▸ List.mem_map_of_mem (List.mem_of_getElem? worker))
  | stopped | crashed => simp [Worker.released, hactivity] at opened

/-- Ingestion goes on unless the feed is quiet; for room on a queue it waits for a worker. -/
theorem ingestion_goes (running : s.ingestion.activity ≠ .ended)
    (spur : s.signal = true ∨ .quiet ∉ s.ingestion.feed) : ∃ t, Goes s t := by
  have able (h : s.stepIngestion ≠ none) : ∃ t, Goes s t := by
    obtain ⟨t, ht⟩ := Option.ne_none_iff_exists'.1 h
    exact ⟨t, .task .ingestion ht⟩
  cases hactivity : s.ingestion.activity with
  | pulling =>
    apply able
    cases hsignal : s.signal with
    | true => simp [State.stepIngestion, hactivity, hsignal]
    | false =>
      have noisy : .quiet ∉ s.ingestion.feed := by simpa [hsignal] using spur
      simp only [State.stepIngestion, hactivity, hsignal, State.pull, Bool.false_eq_true, if_false]
      split <;> simp_all
  | pausing finish =>
    by_cases due : finish ≤ s.now
    · apply able
      simp only [State.stepIngestion, hactivity, if_pos due]
      split <;> simp
    · refine goes_of_moment ?_ (not_le.1 due)
      have hdeadline : s.feedDeadline? = some finish := by simp [State.feedDeadline?, hactivity]
      exact hdeadline ▸ List.mem_cons_self
  | placing request index =>
    cases worker : s.workers[index]? with
    | none => exact able (by simp [State.stepIngestion, hactivity, worker])
    | some w =>
      cases hsignal : s.signal with
      | true => exact able (by simp [State.stepIngestion, hactivity, worker, hsignal])
      | false =>
        cases hreleased : w.released with
        | true =>
          exact able (by
            simp [State.stepIngestion, hactivity, worker, hsignal, State.place, hreleased])
        | false =>
          by_cases room : w.queue.length < s.setup.room
          · exact able (by
              simp [State.stepIngestion, hactivity, worker, hsignal, State.place, hreleased, room])
          · -- the queue is full, so its worker has a request to take
            have hroom : 1 ≤ s.setup.room := le_max_right _ _
            have hqueue : w.queue ≠ [] := by
              rintro hnil
              rw [hnil] at room
              exact room hroom
            exact worker_goes worker hreleased (.inr (.inl hqueue))
  | ended => exact absurd hactivity running

/-- When every task has ended the supervisor gets to its result. -/
theorem supervisor_goes (h : Register s) (busy : s.supervisor.result = none)
    (closed : s.closed = true) (released : ∀ w ∈ s.workers, w.released = true) : ∃ t, Goes s t := by
  have able (h : s.stepSupervisor ≠ none) : ∃ t, Goes s t := by
    obtain ⟨t, ht⟩ := Option.ne_none_iff_exists'.1 h
    exact ⟨t, .task .supervisor ht⟩
  apply able
  cases hends : s.ends with
  | cons e rest => simp [State.stepSupervisor, busy, hends]
  | nil =>
    have hcount := h.count
    rw [State.endedCount, if_pos closed, List.countP_eq_length.2 released, hends] at hcount
    have all : s.supervisor.joined = s.taskCount := by
      rw [State.taskCount]
      simp only [List.length_nil] at hcount
      omega
    simp [State.stepSupervisor, busy, hends, all]

/-- Without a result the relay can go on, unless the feed goes quiet and the signal is not raised.
-/
theorem goes_on (h : Register s) (busy : s.supervisor.result = none)
    (spur : s.signal = true ∨ .quiet ∉ s.ingestion.feed) : ∃ t, Goes s t := by
  by_cases running : s.ingestion.activity = .ended
  · have closed : s.closed = true := closed_iff.2 running
    by_cases released : ∀ w ∈ s.workers, w.released = true
    · exact supervisor_goes h busy closed released
    · push Not at released
      obtain ⟨w, hw, hopen⟩ := released
      obtain ⟨index, worker⟩ := List.mem_iff_getElem?.1 hw
      exact worker_goes worker (by simpa using hopen) (.inr (.inr closed))
  · exact ingestion_goes running spur

end Goes

/-! ## What is inevitable -/

/-- However the relay goes on, it gets to a state with a property after finitely many steps. -/
inductive Inevitable (P : State → Prop) : State → Prop
  | now {s} (h : P s) : Inevitable P s
  | later {s} (able : ∃ t, Goes s t) (all : ∀ t, Goes s t → Inevitable P t) : Inevitable P s

theorem Inevitable.mono {P Q : State → Prop} {s : State} (h : Inevitable P s)
    (weaker : ∀ t, P t → Q t) : Inevitable Q s := by
  induction h with
  | now h => exact .now (weaker _ h)
  | later able _ ih => exact .later able ih

/-- What is inevitable happens in some run without a signal from outside. -/
theorem Inevitable.run {P : State → Prop} {s : State} (h : Inevitable P s) :
    ∃ moves t, Run s moves t ∧ .raise ∉ moves ∧ P t := by
  induction h with
  | now h => exact ⟨[], _, .start, by simp, h⟩
  | later able _ ih =>
    obtain ⟨t, goes⟩ := able
    obtain ⟨m, first, hm⟩ := goes.run
    obtain ⟨moves, u, second, calm, h⟩ := ih t goes
    exact ⟨m :: moves, u, first.append second, by simp [calm, hm.symm], h⟩

/-- The relay gets to a result, whatever the order of the steps, from any state of any run in which
the signal is raised or the feed does not go quiet. -/
theorem inevitable_result {setup : Setup} {signal : Bool} {moves : List Move} {t : State}
    (run : Run (.start setup signal) moves t)
    (spur : t.signal = true ∨ .quiet ∉ t.ingestion.feed) :
    Inevitable (fun u => u.supervisor.result.isSome = true ∧ ∃ more, Run t more u ∧ .raise ∉ more)
      t := by
  suffices h : ∀ measure u more, 2 * u.work + u.pending = measure → Run t more u → .raise ∉ more →
      Inevitable (fun u => u.supervisor.result.isSome = true ∧ ∃ more, Run t more u ∧ .raise ∉ more)
        u from h _ t [] rfl .start (by simp)
  intro measure
  induction measure using Nat.strong_induction_on with
  | h measure ih =>
    intro u more hmeasure further calm
    have register := register_of_run (run.append further)
    cases hresult : u.supervisor.result with
    | some r => exact .now ⟨by simp [hresult], more, further, calm⟩
    | none =>
      have hspur : u.signal = true ∨ .quiet ∉ u.ingestion.feed :=
        spur.imp further.signal fun hquiet hmem => hquiet (further.feed.subset hmem)
      refine .later (goes_on register hresult hspur) fun v goes => ?_
      obtain ⟨m, single, hm⟩ := goes.run
      have hcalm : .raise ∉ more ++ [m] := by simp [calm, hm.symm]
      exact ih _ (hmeasure ▸ goes.lt register) v _ rfl (further.append single) hcalm

end TxRelay.Relay
