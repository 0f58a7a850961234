import TxRelay.Proofs.Relay.Aftermath
import TxRelay.Proofs.Relay.Timetable

/-!
# How long a run takes

However many agents there are, and even if none of them ever answers, a run takes no longer than the
pauses of the feed and one limit for each message. The calls with one request are made side by side:
when ingestion gets to the next message, or gets room for it, no worker is further behind than the
pauses and the calls with the requests before account for. Once the signal is raised no call is made
any more, so the run ends within one limit from then.

Results:
* `certain_result`: a run in virtual time comes to its result, in any order of the steps.
* `Early.happens`: no move makes a relay late while the signal is not raised.
* `ends_in_time`: a run ends, and by when.
-/

namespace TxRelay

/-- How long a feed pauses altogether. -/
def Feed.pauses : List Feed.Step → ℕ
  | [] => 0
  | step :: rest => step.length + pauses rest

namespace Relay

/-! ## Coming to an end -/

/-- However a relay goes on by a rule, it comes to a state with a property. -/
inductive Certain (rule : State → Move → Prop) (P : State → Prop) : State → Prop
  | now {s} (h : P s) : Certain rule P s
  | later {s} (able : ∃ m t, rule s m ∧ s.after m = some t)
      (all : ∀ m t, rule s m → s.after m = some t → Certain rule P t) : Certain rule P s

/-- The feed fails next, or a task has ended with an error: the supervisor is about to raise the
signal. -/
def State.Doomed (s : State) : Prop :=
  s.failing = true ∨ s.firstError? ≠ none

/-- Something brings the run to its end: the feed comes to its own, or the signal is raised, now or
later. -/
def State.Bounded (s : State) (signalAt : Option ℕ) : Prop :=
  s.signal = true ∨ .quiet ∉ s.ingestion.feed ∨ (∃ due, signalAt = some due ∧ s.now ≤ due) ∨ s.Doomed

section Certain

variable {setup : Setup} {signal : Bool} {signalAt : Option ℕ} {s t : State} {moves : List Move}
  {m : Move}

/-- The supervisor raises the signal with the first error that it hears of. -/
theorem raised_of_error (run : Run (.start setup signal) moves t)
    (error : t.supervisor.error ≠ none) : t.signal = true := by
  refine run.keeps (P := fun t => t.supervisor.error ≠ none → t.signal = true) ?_ ?_ error
  · intro s m t h move error
    have move := happens_of_after move
    cases move with
    | @join e rest =>
      have hear (e : RunError) :
          (State.hear { s with ends := rest, supervisor.joined := s.supervisor.joined + 1 } e).signal =
            true := by
        obtain ⟨log, hhear⟩ := hear_eq
          { s with ends := rest, supervisor.joined := s.supervisor.joined + 1 } e
        rw [hhear]
        cases first : s.supervisor.error with
        | none => exact Bool.or_true _
        | some first => simp [h (by simp [first])]
      cases e with
      | ingestion result =>
        cases result with
        | ok totals => exact h error
        | error e => exact hear e
      | worker index result =>
        cases result with
        | ok stats => exact h error
        | error e => exact hear e
    | conclude =>
      obtain ⟨log, hs⟩ := conclude_eq s
      rw [hs]
    | ingestion step => cases step <;> exact h error
    | worker | pass => exact h error
    | raise => rfl
  · intro error
    exact absurd rfl error

/-- A relay that is about to raise the signal does so before time passes. -/
theorem State.Doomed.step (h : s.Doomed) (quiet : s.signal = false) {task : Task}
    (move : Happens s (.task task) t) : t.signal = true ∨ t.Doomed := by
  rcases h with failing | error
  · obtain ⟨-, ready, front⟩ := failing_iff.1 failing
    have stays (signal : t.signal = s.signal) (same : t.ingestion = s.ingestion) : t.Doomed :=
      .inl (failing_iff.2 ⟨signal.trans quiet, by rw [same]; exact ⟨ready, front⟩⟩)
    cases move with
    | ingestion step => exact .inr (.inr (firstError_of_failing step failing))
    | worker => exact .inr (stays rfl rfl)
    | join =>
      refine or_iff_not_imp_left.2 fun hush => stays ?_ (join_ingestion _ _)
      exact (Bool.eq_false_of_not_eq_true hush).trans quiet.symm
    | conclude =>
      obtain ⟨log, hs⟩ := conclude_eq s
      exact .inl (by rw [hs])
  · obtain ⟨e, first⟩ := Option.ne_none_iff_exists'.1 error
    exact .inr (.inr (by simp [move.firstError_eq first]))

theorem State.Doomed.move? (h : s.Doomed) (run : Run (.start setup signal) moves s)
    (quiet : s.signal = false) : s.move? ≠ none := by
  intro stuck
  rcases h with failing | error
  · obtain ⟨-, ready, e, rest, front⟩ := failing_iff.1 failing
    have step := (IngestionStep.fail ready quiet front).eq quiet
    have ingestion : s.stepIngestion = none := step_of_move? stuck .ingestion
    rw [step] at ingestion
    cases ingestion
  · have supervisor : s.stepSupervisor = none := step_of_move? stuck .supervisor
    have unheard : s.supervisor.error = none := by
      by_contra heard
      rw [raised_of_error run heard] at quiet
      cases quiet
    have busy : s.supervisor.result = none := by
      cases result : s.supervisor.result with
      | none => rfl
      | some r =>
        rw [((register_of_run run).result result).1] at quiet
        cases quiet
    rw [State.firstError?, unheard, Option.none_or] at error
    cases front : s.ends with
    | nil => exact error (by rw [front]; rfl)
    | cons e rest => simp [State.stepSupervisor, busy, front] at supervisor

/-- The moment at which the signal has to be raised from outside is not missed. -/
theorem now_le_of_prompt {due : ℕ} (allowed : Prompt (some due) s m) (move : s.after m = some t)
    (quiet : t.signal = false) (le : s.now ≤ due) : t.now ≤ due := by
  cases m with
  | task task => rwa [now_of_step move]
  | pass moment =>
    obtain ⟨-, -, undue, ahead⟩ := allowed
    cases happens_of_after move
    have hne : due ≠ s.now := fun h => undue ⟨congrArg some h, quiet⟩
    exact nextMoment_le ahead List.mem_cons_self (by omega)
  | raise => cases move; cases quiet

/-- Every move in virtual time leaves less to do, to wait for or to raise. -/
theorem prompt_lt (register : Register s) (allowed : Prompt signalAt s m)
    (move : s.after m = some t) :
    t.remaining signalAt + (if t.signal then 0 else 1) <
      s.remaining signalAt + (if s.signal then 0 else 1) := by
  have signal := (happens_of_after move).signal
  cases m with
  | task task =>
    have hlt := step_remaining signalAt register move
    split_ifs with ht hs hs <;> first | omega | exact absurd (signal hs) ht
  | pass moment =>
    obtain ⟨-, -, -, next⟩ := allowed
    cases happens_of_after move with
    | pass => exact Nat.add_lt_add_right (pass_remaining next) _
  | raise =>
    obtain ⟨-, quiet⟩ := allowed
    cases move
    simp [quiet, State.remaining, State.work, State.moments, State.feedDeadline?, State.taskCount]

theorem State.Bounded.prompt (h : s.Bounded signalAt) (run : Run (.start setup signal) moves s)
    (allowed : Prompt signalAt s m) (move : s.after m = some t) : t.Bounded signalAt := by
  have happens := happens_of_after move
  cases hsignal : t.signal with
  | true => exact .inl hsignal
  | false =>
    have quiet : s.signal = false := by
      by_contra raised
      rw [happens.signal (by simpa using raised)] at hsignal
      cases hsignal
    rcases h with raised | noisy | ⟨due, rfl, le⟩ | doomed
    · rw [quiet] at raised; cases raised
    · exact .inr (.inl fun hmem => noisy (happens.feed.subset hmem))
    · exact .inr (.inr (.inl ⟨due, rfl, now_le_of_prompt allowed move hsignal le⟩))
    · cases m with
      | task task => exact (doomed.step quiet happens).imp_right fun h => .inr (.inr h)
      | pass moment => exact absurd allowed.1 (doomed.move? run quiet)
      | raise => cases move; cases hsignal

/-- Without a result the relay can go on in virtual time. -/
theorem State.Bounded.able (h : s.Bounded signalAt) (run : Run (.start setup signal) moves s)
    (busy : s.supervisor.result = none) : ∃ m t, Prompt signalAt s m ∧ s.after m = some t := by
  cases hmove : s.move? with
  | some t =>
    obtain ⟨task, -, step⟩ := List.exists_of_findSome?_eq_some hmove
    exact ⟨.task task, t, trivial, step⟩
  | none =>
    by_cases due : s.Due signalAt
    · exact ⟨.raise, _, due, rfl⟩
    · have spur : s.signal = true ∨ .quiet ∉ s.ingestion.feed ∨
          ∃ due, signalAt = some due ∧ s.now ≤ due := by
        cases hsignal : s.signal with
        | true => exact .inl rfl
        | false =>
          rcases h with raised | noisy | outside | doomed
          · rw [hsignal] at raised; cases raised
          · exact .inr (.inl noisy)
          · exact .inr (.inr outside)
          · exact absurd hmove (doomed.move? run hsignal)
      obtain ⟨moment, next⟩ := Option.ne_none_iff_exists'.1
        (nextMoment?_ne_none (register_of_run run) hmove busy due spur)
      exact ⟨.pass moment, _, ⟨hmove, busy, due, next⟩, if_pos (now_lt_of_nextMoment next).le⟩

/-- A run in virtual time comes to its result, in any order of the steps. -/
theorem certain_result (run : Run (.start setup signal) moves s) (h : s.Bounded signalAt) :
    Certain (Prompt signalAt) (fun t => t.supervisor.result.isSome = true) s := by
  induction hmeasure : s.remaining signalAt + (if s.signal then 0 else 1)
    using Nat.strong_induction_on generalizing s moves with
  | h measure ih =>
    cases result : s.supervisor.result with
    | some r => exact .now (by simp [result])
    | none =>
      refine .later (h.able run result) fun m t allowed move => ?_
      have hlt := prompt_lt (register_of_run run) allowed move
      exact ih _ (hmeasure ▸ hlt) (run.next move) (h.prompt run allowed move) rfl

end Certain

/-! ## After the signal -/

/-- Neither the moment nor the end of a call is beyond a bound. -/
structure Capped (bound : ℕ) (s : State) : Prop where
  now : s.now ≤ bound
  calls : ∀ w ∈ s.workers, ∀ {finish}, w.deadline? = some finish → finish ≤ bound

section Capped

variable {setup : Setup} {signal : Bool} {signalAt : Option ℕ} {s t : State}
  {moves more : List Move} {m : Move} {bound : ℕ}

/-- A worker that a step brings into a call has made it with this step. -/
theorem call_of_step {now finish : ℕ} {signal closed : Bool} {w next : Worker}
    (step : w.Step now signal closed next) (deadline : next.deadline? = some finish) :
    ∃ request rest, signal = false ∧ w.activity = .waiting ∧ w.queue = request :: rest ∧
      next = w.call now request rest ∧
      finish = now + (w.agent.respond w.calls.length request).duration w.limit := by
  cases step with
  | begin | cancel | drained => cases deadline
  | @call request rest waiting quiet front =>
    exact ⟨request, rest, quiet, waiting, front, rfl, (Option.some.inj deadline).symm⟩
  | conclude =>
    rcases Worker.conclude_activity w _ _ with ready | ⟨reason, -, crashed⟩
    · rw [Worker.deadline?, ready] at deadline; cases deadline
    · rw [Worker.deadline?, crashed] at deadline; cases deadline

/-- A call ends within its limit from any moment at which it is in flight. -/
theorem deadline_le (run : Run (.start setup signal) moves t) {w : Worker} (hw : w ∈ t.workers)
    {finish : ℕ} (deadline : w.deadline? = some finish) : finish ≤ t.now + setup.limit := by
  induction run generalizing w finish with
  | start =>
    obtain ⟨index, hindex⟩ := List.mem_iff_getElem?.1 hw
    obtain ⟨agent, -, rfl⟩ := worker_start hindex
    cases deadline
  | @next moves s m t run move ih =>
    have happens := happens_of_after move
    have before {w : Worker} (hw : w ∈ s.workers) {finish : ℕ}
        (deadline : w.deadline? = some finish) : finish ≤ t.now + setup.limit :=
      (ih hw deadline).trans (Nat.add_le_add_right happens.now_le _)
    cases happens with
    | ingestion step =>
      cases step with
      | push placing quiet worker =>
        rcases List.mem_or_eq_of_mem_set hw with hw | rfl
        · exact before hw deadline
        · exact before (List.mem_of_getElem? worker) deadline
      | cancel | exhaust | skip | tag | pause | fail | resume | finish | dead =>
        exact before hw deadline
    | @worker index v next worker step =>
      rcases List.mem_or_eq_of_mem_set hw with hw | rfl
      · exact before hw deadline
      · obtain ⟨request, rest, -, -, -, -, rfl⟩ := call_of_step step deadline
        have hlimit := (crew_of_run run).limit v (List.mem_of_getElem? worker)
        have hduration := Reply.duration_le (v.agent.respond v.calls.length request) v.limit
        change s.now + _ ≤ s.now + setup.limit
        omega
    | join => rw [join_workers] at hw; exact before hw deadline
    | conclude => rw [conclude_workers] at hw; exact before hw deadline
    | pass | raise => exact before hw deadline

/-- After the signal no call is made any more, and time passes up to the end of one in flight. -/
theorem Capped.prompt (h : Capped bound s) (raised : s.signal = true) (register : Register s)
    (allowed : Prompt signalAt s m) (move : s.after m = some t) : Capped bound t := by
  have same {u : State} (now : u.now = s.now) (workers : u.workers = s.workers) : Capped bound u :=
    ⟨by rw [now]; exact h.now, by rw [workers]; exact h.calls⟩
  cases happens_of_after move with
  | ingestion step =>
    cases step with
    | cancel | finish => exact same rfl rfl
    | exhaust _ quiet | skip _ quiet | tag _ quiet | pause _ quiet | fail _ quiet | resume _ quiet
    | dead _ quiet | push _ quiet =>
      rw [raised] at quiet; cases quiet
  | @worker index w next worker step =>
    refine ⟨h.now, fun v hv finish deadline => ?_⟩
    rcases List.mem_or_eq_of_mem_set hv with hv | rfl
    · exact h.calls v hv deadline
    · obtain ⟨-, -, quiet, -⟩ := call_of_step step deadline
      rw [raised] at quiet; cases quiet
  | join => exact same (join_now _ _) (join_workers _ _)
  | conclude => exact same (conclude_now _) (conclude_workers _)
  | raise => exact same rfl rfl
  | pass =>
    obtain ⟨stuck, busy, -, next⟩ := allowed
    obtain ⟨index, v, finish, worker, deadline, le⟩ :=
      caller_of_stuck register raised stuck busy next
    exact ⟨le.trans (h.calls v (List.mem_of_getElem? worker) deadline), h.calls⟩

end Capped

/-! ## Before the signal -/

/-- So many calls, one after the other, and the pauses that the feed has made so far take at least up
to a moment. -/
def State.Covers (s : State) (count moment : ℕ) : Prop :=
  moment + Feed.pauses s.ingestion.feed ≤ Feed.pauses s.setup.feed + count * s.setup.limit

/-- Nothing is later than the pauses of the feed and the calls with the requests before account for.
-/
structure Early (s : State) : Prop where
  pulling : s.ingestion.activity = .pulling → s.Covers s.ingestion.tagged.length s.now
  pausing : ∀ {finish}, s.ingestion.activity = .pausing finish →
    s.now ≤ finish ∧ s.Covers s.ingestion.tagged.length finish
  /-- While a request is put on the queues no call with it has to be accounted for. -/
  placing : ∀ {request index}, s.ingestion.activity = .placing request index →
    s.Covers (s.ingestion.tagged.length - 1) s.now
  calling : ∀ {index : ℕ} {w : Worker}, s.workers[index]? = some w →
    ∀ {finish}, w.deadline? = some finish → s.now ≤ finish ∧ s.Covers w.calls.length finish
  queued : ∀ {index : ℕ} {w : Worker}, s.workers[index]? = some w → w.deadline? = none →
    w.queue ≠ [] → s.Covers w.calls.length s.now

section Early

variable {setup : Setup} {signal : Bool} {signalAt : Option ℕ} {s t : State} {moves : List Move}
  {m : Move} {count moment : ℕ}

theorem State.Covers.le (h : s.Covers count moment) {count' moment' : ℕ}
    (later : count ≤ count') (earlier : moment' ≤ moment) : s.Covers count' moment' := by
  have hmul : count * s.setup.limit ≤ count' * s.setup.limit := Nat.mul_le_mul_right _ later
  unfold State.Covers at h ⊢
  omega

/-- To take from the feed makes nothing later. -/
theorem State.Covers.take (h : s.Covers count moment) (setup : t.setup = s.setup)
    (feed : Feed.pauses t.ingestion.feed ≤ Feed.pauses s.ingestion.feed) :
    t.Covers count moment := by
  unfold State.Covers at h ⊢
  rw [setup]
  omega

theorem early_start (setup : Setup) (signal : Bool) : Early (.start setup signal) where
  pulling _ := by simp [State.Covers, State.start]
  pausing paused := by cases paused
  placing placing := by cases placing
  calling worker _ deadline := by
    obtain ⟨agent, -, rfl⟩ := worker_start worker
    cases deadline
  queued worker _ queue := by
    obtain ⟨agent, -, rfl⟩ := worker_start worker
    exact absurd rfl queue

/-- Ingestion goes on, and the workers stay as they are. -/
theorem Early.leave (h : Early s) (setup : t.setup = s.setup) (now : t.now = s.now)
    (workers : t.workers = s.workers)
    (feed : Feed.pauses t.ingestion.feed ≤ Feed.pauses s.ingestion.feed)
    (pulling : t.ingestion.activity = .pulling → t.Covers t.ingestion.tagged.length t.now)
    (pausing : ∀ {finish}, t.ingestion.activity = .pausing finish →
      t.now ≤ finish ∧ t.Covers t.ingestion.tagged.length finish)
    (placing : ∀ {request index}, t.ingestion.activity = .placing request index →
      t.Covers (t.ingestion.tagged.length - 1) t.now) : Early t where
  pulling := pulling
  pausing := pausing
  placing := placing
  calling worker _ deadline := by
    rw [workers] at worker
    rw [now]
    exact ⟨(h.calling worker deadline).1, (h.calling worker deadline).2.take setup feed⟩
  queued worker free queue := by
    rw [workers] at worker
    rw [now]
    exact (h.queued worker free queue).take setup feed

/-- Ingestion ends, whatever it was about. -/
theorem Early.end (h : Early s) (setup : t.setup = s.setup) (now : t.now = s.now)
    (workers : t.workers = s.workers)
    (feed : Feed.pauses t.ingestion.feed ≤ Feed.pauses s.ingestion.feed)
    (ended : t.ingestion.activity = .ended) : Early t :=
  h.leave setup now workers feed (by simp [ended]) (by simp [ended]) (by simp [ended])

/-- A request is put on a queue, which may have been empty. -/
theorem Early.push (h : Early s) {full next : ℕ} (delivery : Delivery s full next)
    {request : Request} {index : ℕ} {w : Worker}
    (placing : s.ingestion.activity = .placing request index)
    (worker : s.workers[index]? = some w) (opened : w.released = false) :
    Early (s.push request index w) := by
  obtain ⟨rfl, before, htagged, hbefore⟩ := delivery.broadcast.placing placing
  have covers := h.placing placing
  refine ⟨by simp [State.push], by simp [State.push], fun _ => covers.take rfl le_rfl, ?_, ?_⟩
  all_goals
    intro i v hv
    rw [State.push, List.getElem?_set] at hv
    split_ifs at hv with hi hlt
  · obtain rfl := Option.some.inj hv
    exact fun deadline => ⟨(h.calling worker deadline).1, (h.calling worker deadline).2⟩
  · exact fun deadline => ⟨(h.calling hv deadline).1, (h.calling hv deadline).2⟩
  · obtain rfl := Option.some.inj hv
    intro free _
    change s.Covers w.calls.length s.now
    by_cases queue : w.queue = []
    · -- the worker has called with all the requests before
      have queued := (delivery.served worker).queued opened
      have hcalls : w.calls.length = s.ingestion.tagged.length - 1 := by
        have hlength := congrArg List.length queued
        rw [queue, List.append_nil, List.length_map, List.length_take, placed] at hlength
        simpa [htagged, hbefore] using hlength
      rwa [hcalls]
    · exact h.queued worker free queue
  · exact fun free queue => h.queued hv free queue

theorem Early.ingestionStep (h : Early s) {full next : ℕ} (delivery : Delivery s full next)
    (step : IngestionStep s t) : Early t := by
  cases step with
  | cancel | exhaust | dead => exact h.end rfl rfl rfl le_rfl rfl
  | fail ready quiet front =>
    refine h.end rfl rfl rfl ?_ rfl
    rw [front]
    exact Nat.le_add_left _ _
  | @skip item rest error ready quiet front =>
    have feed : Feed.pauses rest ≤ Feed.pauses s.ingestion.feed := by
      rw [front]; exact Nat.le_add_left _ _
    refine h.leave rfl rfl rfl feed (fun _ => (h.pulling ready).take rfl feed) ?_ ?_
    · intro finish paused; rw [skip_activity] at paused; cases paused
    · intro request index placing; rw [skip_activity] at placing; cases placing
  | @tag item rest message ready quiet front =>
    have feed : Feed.pauses rest ≤ Feed.pauses s.ingestion.feed := by
      rw [front]; exact Nat.le_add_left _ _
    refine h.leave rfl rfl rfl feed (by simp) (by simp) fun _ => ?_
    have hlength : ((s.goOn .pulling rest).tag message).ingestion.tagged.length - 1 =
        s.ingestion.tagged.length := by simp [State.tag, State.goOn, State.record]
    rw [hlength]
    exact (h.pulling ready).take rfl feed
  | @pause duration rest ready quiet front =>
    have feed : Feed.pauses s.ingestion.feed = duration + Feed.pauses rest := by rw [front]; rfl
    have covers := h.pulling ready
    refine h.leave rfl rfl rfl (feed ▸ Nat.le_add_left _ _) (by simp) ?_ (by simp)
    intro finish paused
    cases paused
    refine ⟨Nat.le_add_right _ _, ?_⟩
    unfold State.Covers at covers ⊢
    simp only [State.goOn]
    omega
  | resume paused quiet due =>
    obtain ⟨le, covers⟩ := h.pausing paused
    exact h.leave rfl rfl rfl le_rfl (fun _ => (covers.le le_rfl le).take rfl le_rfl)
      (by simp) (by simp)
  | finish placing done =>
    have covers := h.placing placing
    exact h.leave rfl rfl rfl le_rfl
      (fun _ => (covers.le (Nat.sub_le _ _) le_rfl).take rfl le_rfl) (by simp) (by simp)
  | push placing quiet worker opened => exact h.push delivery placing worker opened

theorem Early.workerStep (h : Early s) {index : ℕ} {w next : Worker}
    (limit : w.limit = s.setup.limit) (worker : s.workers[index]? = some w)
    (step : w.Step s.now s.signal s.closed next) : Early (s.setWorker index next) := by
  refine ⟨h.pulling, h.pausing, h.placing, ?_, ?_⟩
  all_goals
    intro i v hv
    rw [State.setWorker, List.getElem?_set] at hv
    split_ifs at hv with hi hlt
  · obtain rfl := Option.some.inj hv
    intro deadline
    obtain ⟨request, rest, -, waiting, front, rfl, rfl⟩ := call_of_step step deadline
    have covers := h.queued worker (by rw [Worker.deadline?, waiting]) (by simp [front])
    refine ⟨Nat.le_add_right _ _, ?_⟩
    have hduration := Reply.duration_le (w.agent.respond w.calls.length request) w.limit
    rw [limit] at hduration
    have hcalls : (w.call s.now request rest).calls.length = w.calls.length + 1 := by
      simp [Worker.call]
    unfold State.Covers at covers ⊢
    rw [hcalls, limit, Nat.succ_mul]
    simp only [State.setWorker]
    omega
  · exact fun deadline => h.calling hv deadline
  · obtain rfl := Option.some.inj hv
    intro free queue
    cases step with
    | begin fresh =>
      change s.Covers w.calls.length s.now
      exact h.queued worker (by rw [Worker.deadline?, fresh]) queue
    | cancel | drained => exact absurd rfl queue
    | call => cases free
    | @conclude request finish outcome calling due =>
      have deadline : w.deadline? = some finish := by rw [Worker.deadline?, calling]
      obtain ⟨le, covers⟩ := h.calling worker deadline
      rw [Worker.conclude_calls]
      exact (covers.le le_rfl le).take rfl le_rfl
  · exact fun free queue => h.queued hv free queue

/-- Time that passes up to the next moment, when no task can step, makes nothing late: whoever cannot
step waits for a moment up to which there is something to account for. -/
theorem Early.pass (h : Early s) {full next : ℕ} (delivery : Delivery s full next)
    (quiet : s.signal = false) (noisy : .quiet ∉ s.ingestion.feed) (still : s.move? = none)
    {moment : ℕ} (ahead : s.nextMoment? signalAt = some moment) :
    Early { s with now := moment } := by
  have stuck := stuck_of_next quiet (step_of_move? still) ahead
  have calls {index : ℕ} {w : Worker} (worker : s.workers[index]? = some w) {finish : ℕ}
      (deadline : w.deadline? = some finish) : moment ≤ finish ∧ s.Covers w.calls.length finish := by
    obtain ⟨request, outcome, calling⟩ := Worker.deadline?_eq_some.1 deadline
    exact ⟨stuck.call worker calling, (h.calling worker deadline).2⟩
  -- a worker with requests that cannot step is in a call
  have waits {index : ℕ} {w : Worker} (worker : s.workers[index]? = some w)
      (opened : w.released = false) (queue : w.queue ≠ []) : ∃ finish, w.deadline? = some finish := by
    have hstep := stuck.worker worker
    rw [quiet] at hstep
    obtain ⟨request, finish, outcome, calling⟩ := calling_of_step hstep queue opened
    exact ⟨finish, by rw [Worker.deadline?, calling]⟩
  have held := held_of_stuck quiet noisy stuck.ingestion
  refine ⟨fun ready => ?_, fun paused => ⟨stuck.pause paused, (h.pausing paused).2⟩,
    fun placing => ?_, calls, fun {_ w} worker free queue => ?_⟩
  · cases held with
    | pause paused => rw [show _ = _ from ready] at paused; cases paused
    | full placing => rw [show _ = _ from ready] at placing; cases placing
    | ended closed => rw [closed_iff, show _ = _ from ready] at closed; cases closed
  · cases held with
    | pause paused => rw [show _ = _ from placing] at paused; cases paused
    | @full request index w placing worker opened hfull =>
      have room : 1 ≤ s.setup.room := le_max_right _ _
      have queue : w.queue ≠ [] := List.ne_nil_of_length_pos (room.trans hfull)
      obtain ⟨finish, deadline⟩ := waits worker opened queue
      obtain ⟨le, covers⟩ := calls worker deadline
      obtain ⟨rfl, before, htagged, hbefore⟩ := delivery.broadcast.placing placing
      have queued := congrArg List.length ((delivery.served worker).queued opened)
      rw [List.length_append, List.length_map, List.length_take, placed] at queued
      have hcalls : w.calls.length ≤ s.ingestion.tagged.length - 1 := by
        simp [htagged, hbefore] at queued ⊢
        omega
      exact covers.le hcalls le
    | ended closed => rw [closed_iff, show _ = _ from placing] at closed; cases closed
  · have opened : w.released = false := by
      by_contra released
      exact queue ((delivery.served worker).released (by simpa using released))
    obtain ⟨finish, deadline⟩ := waits worker opened queue
    rw [free] at deadline
    cases deadline

/-- No move in virtual time makes a relay late while the signal is not raised. -/
theorem Early.happens (h : Early s) (run : Run (.start setup signal) moves s)
    (quiet : s.signal = false) (noisy : .quiet ∉ s.ingestion.feed) (allowed : Prompt signalAt s m)
    (move : s.after m = some t) : Early t := by
  obtain ⟨full, next, delivery⟩ := delivery_of_run run
  have same {u : State} (setup : u.setup = s.setup) (now : u.now = s.now)
      (workers : u.workers = s.workers) (ingestion : u.ingestion = s.ingestion) : Early u := by
    have covers {count moment : ℕ} (covers : s.Covers count moment) : u.Covers count moment :=
      covers.take setup (by rw [ingestion])
    refine h.leave setup now workers (by rw [ingestion]) ?_ ?_ ?_ <;> rw [ingestion, now]
    · exact fun ready => covers (h.pulling ready)
    · exact fun paused => ⟨(h.pausing paused).1, covers (h.pausing paused).2⟩
    · exact fun placing => covers (h.placing placing)
  cases happens_of_after move with
  | ingestion step => exact h.ingestionStep delivery step
  | @worker index w next worker step =>
    have limit := (crew_of_run run).limit w (List.mem_of_getElem? worker)
    exact h.workerStep (by rw [limit, run.setup]; rfl) worker step
  | join => exact same (join_setup _ _) (join_now _ _) (join_workers _ _) (join_ingestion _ _)
  | conclude =>
    exact same (conclude_setup _) (conclude_now _) (conclude_workers _) (conclude_ingestion _)
  | raise => exact same rfl rfl rfl rfl
  | pass =>
    obtain ⟨stuck, -, -, ahead⟩ := allowed
    exact h.pass delivery quiet noisy stuck ahead

end Early

/-! ## By when a run ends -/

/-- The pauses of the feed, and one limit for each message. -/
def Setup.horizon (setup : Setup) : ℕ :=
  Feed.pauses setup.feed + (Feed.messages setup.feed).length * setup.limit

/-- Whatever the order of the steps, a run in virtual time gets from a state to its result, and time
does not pass beyond a bound. -/
structure EndsBy (signalAt : Option ℕ) (s : State) (bound : ℕ) : Prop where
  ends : Certain (Prompt signalAt) (fun t => t.supervisor.result.isSome = true) s
  within : ∀ {moves t}, RunBy (Prompt signalAt) s moves t → t.now ≤ bound

section EndsBy

variable {setup : Setup} {signal : Bool} {signalAt : Option ℕ} {s t : State} {moves more : List Move}
  {m : Move}

/-- What is accounted for by the calls with requests of the feed is not beyond the horizon. -/
theorem State.Covers.le_horizon {count moment : ℕ} (h : s.Covers count moment)
    (run : Run (.start setup signal) moves s) (le : count ≤ s.ingestion.tagged.length) :
    moment ≤ setup.horizon := by
  obtain ⟨taken, intake⟩ := intake_of_run run
  have htagged : s.ingestion.tagged.length ≤ (Feed.messages setup.feed).length := by
    rw [intake.tagged, length_requests, intake.feed, Feed.messages_append, List.length_append]
    exact Nat.le_add_right _ _
  have covers := h.le (le.trans htagged) le_rfl
  unfold State.Covers at covers
  rw [run.setup] at covers
  exact (Nat.le_add_right _ _).trans covers

theorem length_calls_le {full next index : ℕ} (delivery : Delivery s full next) {w : Worker}
    (worker : s.workers[index]? = some w) : w.calls.length ≤ s.ingestion.tagged.length := by
  have hlength := (delivery.served worker).called.length_le
  rw [List.length_map, List.length_take] at hlength
  exact hlength.trans (min_le_right _ _)

/-- The calls that are in flight end before the horizon. -/
theorem Early.calls_le (h : Early s) (run : Run (.start setup signal) moves s) {w : Worker}
    (hw : w ∈ s.workers) {finish : ℕ} (deadline : w.deadline? = some finish) :
    finish ≤ setup.horizon := by
  obtain ⟨index, worker⟩ := List.mem_iff_getElem?.1 hw
  obtain ⟨full, next, delivery⟩ := delivery_of_run run
  exact (h.calling worker deadline).2.le_horizon run (length_calls_le delivery worker)

/-- Time does not pass beyond the horizon while the signal is not raised. -/
theorem Early.now_le (h : Early s) (run : Run (.start setup signal) moves s)
    (noisy : .quiet ∉ s.ingestion.feed) {moment : ℕ} (allowed : Prompt signalAt s (.pass moment)) :
    moment ≤ setup.horizon := by
  obtain ⟨stuck, busy, -, ahead⟩ := allowed
  obtain ⟨t, goes⟩ := goes_on (register_of_run run) busy (.inr noisy)
  cases goes with
  | task task step => rw [step_of_move? stuck task] at step; cases step
  | @wait next _ next_ahead =>
    have hmem := List.min?_mem next_ahead
    simp only [List.mem_filterMap, Option.filter_eq_some_iff, decide_eq_true_eq] at hmem
    obtain ⟨_, hmem, rfl, later⟩ := hmem
    rcases List.mem_cons.1 hmem with hnone | hmem
    · cases hnone
    have le : moment ≤ next := nextMoment_le ahead (List.mem_cons_of_mem _ hmem) later
    refine le.trans ?_
    rcases List.mem_cons.1 hmem with hpause | hmem
    · cases hactivity : s.ingestion.activity with
      | pausing finish =>
        obtain rfl : next = finish := by simpa [State.feedDeadline?, hactivity] using hpause
        exact (h.pausing hactivity).2.le_horizon run le_rfl
      | pulling | placing | ended => simp [State.feedDeadline?, hactivity] at hpause
    · obtain ⟨w, hw, deadline⟩ := List.mem_map.1 hmem
      exact h.calls_le run hw deadline

/-- Time does not pass beyond the horizon of a feed that comes to its end. -/
theorem now_le_horizon (noisy : .quiet ∉ setup.feed)
    (run : RunBy (Prompt signalAt) (.start setup signal) moves t) : t.now ≤ setup.horizon := by
  suffices h : Capped setup.horizon t ∧ (t.signal = false → Early t) from h.1.now
  refine run.keeps (P := fun t => Capped setup.horizon t ∧ (t.signal = false → Early t)) ?_ ?_
  · rintro moves s m t run ⟨capped, early⟩ allowed move
    have happens := happens_of_after move
    cases hsignal : s.signal with
    | true =>
      refine ⟨capped.prompt hsignal (register_of_run run.run) allowed move, fun quiet => ?_⟩
      rw [happens.signal hsignal] at quiet
      cases quiet
    | false =>
      have noisy : .quiet ∉ s.ingestion.feed := fun hmem => noisy (run.run.feed.subset hmem)
      have after := (early hsignal).happens run.run hsignal noisy allowed move
      refine ⟨⟨?_, fun w hw finish => after.calls_le (run.run.next move) hw⟩, fun _ => after⟩
      cases m with
      | task task => rw [now_of_step move]; exact capped.now
      | raise => cases move; exact capped.now
      | pass moment => cases happens; exact (early hsignal).now_le run.run noisy allowed
  · refine ⟨⟨Nat.zero_le _, fun w hw finish => ?_⟩, fun _ => early_start setup signal⟩
    exact (early_start setup signal).calls_le .start hw

/-- Time does not pass beyond one limit once the signal is raised or about to be. -/
theorem now_le_limit (first : Run (.start setup signal) moves s)
    (alarm : s.signal = true ∨ s.Doomed) (run : RunBy (Prompt signalAt) s more t) :
    t.now ≤ s.now + setup.limit := by
  suffices h : Capped (s.now + setup.limit) t ∧ (t.signal = false → t.Doomed ∧ t.now = s.now) from
    h.1.now
  have fresh {moves : List Move} {u : State} (run : Run (.start setup signal) moves u)
      (now : u.now = s.now) : Capped (s.now + setup.limit) u :=
    ⟨now.le.trans (Nat.le_add_right _ _), fun w hw finish deadline =>
      now ▸ deadline_le run hw deadline⟩
  refine run.keeps (P := fun t => Capped (s.now + setup.limit) t ∧
    (t.signal = false → t.Doomed ∧ t.now = s.now)) ?_ ?_
  · rintro moves u m v run ⟨capped, doomed⟩ allowed move
    have happens := happens_of_after move
    have whole := first.append run.run
    cases hsignal : u.signal with
    | true =>
      refine ⟨capped.prompt hsignal (register_of_run whole) allowed move, fun quiet => ?_⟩
      rw [happens.signal hsignal] at quiet
      cases quiet
    | false =>
      obtain ⟨doomed, now⟩ := doomed hsignal
      cases m with
      | task task =>
        have now := (now_of_step move).trans now
        refine ⟨fresh (whole.next move) now, fun quiet => ⟨?_, now⟩⟩
        exact (doomed.step hsignal happens).resolve_left (by simp [quiet])
      | pass moment => exact absurd allowed.1 (doomed.move? whole hsignal)
      | raise =>
        have raised : v.signal = true := by cases move; rfl
        refine ⟨fresh (whole.next move) (by cases move; exact now), fun quiet => ?_⟩
        rw [raised] at quiet
        cases quiet
  · exact ⟨fresh first rfl, fun quiet => ⟨alarm.resolve_left (by simp [quiet]), rfl⟩⟩

/-- The signal has been raised when its moment is over. -/
theorem now_le_of_quiet {due : ℕ} (run : RunBy (Prompt (some due)) (.start setup signal) moves t)
    (quiet : t.signal = false) : t.now ≤ due := by
  induction run with
  | start => exact Nat.zero_le _
  | next run allowed move ih =>
    refine now_le_of_prompt allowed move quiet (ih ?_)
    by_contra raised
    rw [(happens_of_after move).signal (by simpa using raised)] at quiet
    cases quiet

/-- Time does not pass beyond one limit after the moment at which the signal is raised from
outside. -/
theorem now_le_due {due : ℕ} (run : RunBy (Prompt (some due)) (.start setup signal) moves t) :
    t.now ≤ due + setup.limit := by
  by_cases quiet : t.signal = false
  · exact (now_le_of_quiet run quiet).trans (Nat.le_add_right _ _)
  cases signal with
  | true =>
    have le := now_le_limit .start (.inl rfl) run
    exact le.trans (Nat.add_le_add_right (Nat.zero_le _) _)
  | false =>
    obtain ⟨before, m, after, u, v, -, first, hush, allowed, move, raised, rest⟩ :=
      run.cut (P := fun t => t.signal = false) rfl quiet
    have le := now_le_limit (first.run.next move) (.inl (by simpa using raised)) rest
    refine le.trans (Nat.add_le_add_right ?_ _)
    have now := now_le_of_quiet first hush
    cases m with
    | task task => rwa [now_of_step move]
    | pass moment => cases happens_of_after move; exact absurd hush raised
    | raise => cases move; exact now

end EndsBy

/-- In any order of the steps a run comes to its end. If its feed does, it has ended when the feed has
made its pauses and a limit has passed for every message, whatever the number and the answers of the
agents and the room of the queues. If the signal is raised from outside, it has ended one limit later,
and so it has after any state in which the signal is raised or the feed fails. -/
theorem ends_in_time {setup : Setup} {signal : Bool} {s : State} (signalAt : Option ℕ)
    (launched : launch setup signal = .ok s) :
    (.quiet ∉ setup.feed → EndsBy signalAt s setup.horizon) ∧
      (∀ due, signalAt = some due → EndsBy signalAt s (due + setup.limit)) ∧
      (∀ {moves u}, RunBy (Prompt signalAt) s moves u → u.signal = true ∨ u.Doomed →
        EndsBy signalAt u (u.now + setup.limit)) ∧
      (s.Settled signalAt → .quiet ∉ setup.feed ∨ signalAt ≠ none →
        (∃ moves, RunBy (Prompt signalAt) s moves (s.run signalAt)) ∧
          (s.run signalAt).supervisor.result.isSome = true) := by
  obtain ⟨rfl, -, -⟩ := launch_eq_ok launched
  refine ⟨fun noisy => ?_, ?_, fun run alarm => ?_, fun settled spur => ?_⟩
  · exact ⟨certain_result .start (.inr (.inl noisy)), now_le_horizon noisy⟩
  · rintro due rfl
    exact ⟨certain_result .start (.inr (.inr (.inl ⟨due, rfl, Nat.zero_le _⟩))), now_le_due⟩
  · exact ⟨certain_result run.run (alarm.imp_right fun h => .inr (.inr h)),
      now_le_limit run.run alarm⟩
  · exact ⟨prompt_runFrom _ _ settled, run_isSome settled spur⟩

/-- Two agents that never answer, and room for one request. -/
def silentSetup (feed : List Feed.Step) : Setup where
  name := defaultName
  capacity := 1
  limit := 50
  agents := [.scripted "a" [⟨0, .silence⟩], .scripted "b" [⟨0, .silence⟩]]
  feed
  ids := toString

/-- A pause and two events. -/
def shortFeed : List Feed.Step :=
  [.pause 10, .item (.event plainEvent), .item (.event plainEvent)]

/-- The relay when it is about to find that the feed fails after them. -/
def failingState : State :=
  (State.start (silentSetup (shortFeed ++ [.fail (.closed "end")])) false).runFrom none 15

theorem ends_in_time_silentSetup :
    let s := State.start (silentSetup shortFeed) false
    let endless := State.start (silentSetup (shortFeed ++ [.quiet])) false
    EndsBy none s 110 ∧ (s.run none).supervisor.result.isSome = true ∧ (s.run none).now = 110 ∧
      EndsBy (some 20) endless 70 ∧ (endless.run (some 20)).supervisor.result.isSome = true ∧
      (endless.run (some 20)).now = 60 ∧
      failingState.failing = true ∧ failingState.now = 10 ∧ EndsBy none failingState 60 := by
  have launched (feed : List Feed.Step) :
      launch (silentSetup feed) false = .ok (.start (silentSetup feed) false) := rfl
  have unmissed (feed : List Feed.Step) : (State.start (silentSetup feed) false).Settled none := by
    rintro moment hmoment
    cases hmoment
  obtain ⟨ends, -, -, run⟩ := ends_in_time none (launched shortFeed)
  obtain ⟨-, stops, -, stopped⟩ := ends_in_time (some 20) (launched (shortFeed ++ [.quiet]))
  obtain ⟨-, -, fails, -⟩ := ends_in_time none (launched (shortFeed ++ [.fail (.closed "end")]))
  obtain ⟨moves, failing⟩ := prompt_runFrom 15 _ (unmissed (shortFeed ++ [.fail (.closed "end")]))
  refine ⟨ends (by decide), (run (unmissed _) (.inl (by decide))).2, by decide +kernel,
    stops 20 rfl, (stopped ?_ (.inr (by simp))).2, by decide +kernel, by decide +kernel,
    by decide +kernel, ?_⟩
  · rintro moment hmoment le
    cases hmoment
    cases le
  · have doomed : failingState.Doomed := .inl (by decide +kernel)
    have now : failingState.now = 10 := by decide +kernel
    have ends : EndsBy none failingState (failingState.now + 50) := fails failing (.inr doomed)
    rwa [now] at ends

end Relay

end TxRelay
