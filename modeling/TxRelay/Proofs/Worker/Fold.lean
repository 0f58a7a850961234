import TxRelay.Proofs.Worker.Journal

/-!
# A worker alone is a fold over its queue

A worker that is run alone on a queue filled before makes its calls one after the other: each lasts as
long as the agent takes or up to the limit, whichever is less, and the next one begins when it ends. The
moment at which a call would be made is the sum of what the calls before it last. The signal cuts this
short: the calls made are those that begin before it is raised.

Results:
* `Comes.finish`: a call is waited for, whether or not the signal is raised while it lasts.
* `Served.halts`: a run from the moment at which so many calls have been made.
* `run_eq_fold`: when a run ends, with what result, and which calls it has made by then.
-/

namespace TxRelay

/-! ## What is foretold -/

/-- How long a call lasts if it is waited for without limit, unless it never ends. -/
def Reply.span? (r : Reply) : Option ℕ :=
  match r.ending with
  | .silence => none
  | _ => some r.delay

/-- How long a call is waited for: as long as it lasts, or up to the limit. -/
def Reply.wait (r : Reply) (limit : ℕ) : ℕ :=
  r.span?.elim limit (min · limit)

/-- A call would last longer than its limit. -/
def Reply.Late (r : Reply) (limit : ℕ) : Prop :=
  ∀ span ∈ r.span?, limit < span

instance (r : Reply) (limit : ℕ) : Decidable (r.Late limit) :=
  inferInstanceAs (Decidable (∀ span ∈ r.span?, limit < span))

namespace Worker

/-- What a call counts as: a timeout if it would last longer than the limit, and otherwise what its own
result counts as. -/
def markOf (limit : ℕ) (r : Reply) : Mark :=
  if r.Late limit then .timeout
  else
    match r.ending with
    | .answer (.ok v) => if v.status = .success then .success else .rejection
    | .answer (.error (.timeout _)) => .timeout
    | .answer (.error (.rejected _)) | .answer (.error (.remote _)) => .rejection
    | _ => .failure

section Foretold

variable (agent : Agent) (limit : ℕ) (queue : List Request)

/-- What becomes of the calls for the requests of a queue. -/
def replies : List Reply :=
  queue.mapIdx agent.respond

/-- When a call for a request of the queue is made: when all calls before have been waited for. -/
def startOf (k : ℕ) : ℕ :=
  (((replies agent queue).map (·.wait limit)).take k).sum

/-- The calls for the requests of a queue and what they come to. -/
def timetable : List (Call × Outcome) :=
  queue.mapIdx fun k request =>
    (⟨request, startOf agent limit queue k⟩, (agent.respond k request).outcome limit)

end Foretold

section Replies

variable {r : Reply} {limit : ℕ}

theorem inTime_iff : r.inTime limit = true ↔ ¬ r.Late limit := by
  unfold Reply.inTime Reply.Late Reply.span?
  cases r.ending <;> simp

theorem wait_eq (r : Reply) (limit : ℕ) : r.wait limit = r.duration limit := by
  unfold Reply.wait Reply.duration Reply.inTime Reply.span?
  cases r.ending with
  | silence => rfl
  | answer | crash => simp only [Option.elim_some, decide_eq_true_eq]; split_ifs <;> omega

theorem mark?_outcome (steady : ∀ reason, r.outcome limit ≠ .crash reason) :
    mark? (r.outcome limit) = some (markOf limit r) := by
  unfold markOf
  split_ifs with late
  · rw [Reply.outcome_late (by rwa [← Bool.not_eq_true, inTime_iff, not_not])]
    rfl
  · have inTime := inTime_iff.2 late
    rw [Reply.outcome, if_pos inTime] at steady ⊢
    cases ending : r.ending with
    | silence => simp [Reply.inTime, ending] at inTime
    | crash reason => exact absurd rfl (ending ▸ steady reason)
    | answer result =>
      cases result with
      | error e => cases e <;> rfl
      | ok v =>
        simp only [Outcome.ofAnswer, Verdict.succeeded, decide_eq_true_eq]
        split_ifs <;> rfl

end Replies

/-! ## One call after the other -/

section Runs

variable {closed : Bool} {signalAt : Option ℕ} {fuel now moment : ℕ} {w next : Worker}
  {result : ℕ × Worker}

/-- A run with so many steps left comes to a result, also with more. -/
def Comes (closed : Bool) (signalAt : Option ℕ) (fuel now : ℕ) (w : Worker)
    (result : ℕ × Worker) : Prop :=
  ∀ more, runFrom closed signalAt (fuel + more) now w = some result

theorem raisedBy_eq_false_iff :
    raisedBy signalAt now = false ↔ ∀ moment ∈ signalAt, now < moment := by
  cases signalAt <;> simp [raisedBy]

theorem raisedBy_eq_true_iff :
    raisedBy signalAt now = true ↔ ∃ moment ∈ signalAt, moment ≤ now := by
  cases signalAt <;> simp [raisedBy]

theorem Comes.more (h : Comes closed signalAt fuel now w result) (more : ℕ) :
    Comes closed signalAt (fuel + more) now w result :=
  fun further => by rw [Nat.add_assoc]; exact h (more + further)

theorem Comes.mono (h : Comes closed signalAt fuel now w result) {fuel' : ℕ} (le : fuel ≤ fuel') :
    Comes closed signalAt fuel' now w result := by
  obtain ⟨more, rfl⟩ := Nat.exists_eq_add_of_le le
  exact h.more more

theorem Comes.step (step : w.step now (raisedBy signalAt now) closed = some next)
    (rest : Comes closed signalAt fuel now next result) :
    Comes closed signalAt (fuel + 1) now w result := by
  intro more
  rw [Nat.add_right_comm, runFrom, step]
  exact rest more

theorem Comes.wait (idle : w.step now (raisedBy signalAt now) closed = none)
    (opened : w.released = false) (then_ : nextMoment now [w.deadline?, signalAt] = some moment)
    (rest : Comes closed signalAt fuel moment w result) :
    Comes closed signalAt (fuel + 1) now w result := by
  intro more
  rw [Nat.add_right_comm, runFrom, idle]
  simp only [opened, then_]
  exact rest more

theorem comes_of_stopped {cancelled : Bool} (stopped : w.activity = .stopped cancelled) :
    Comes closed signalAt 1 now w (now, w) := by
  intro more
  rw [Nat.add_comm, runFrom, step_stopped stopped]
  simp [released, stopped]

/-- The next moment is the first of those still to come. -/
theorem nextMoment_eq {moments : List (Option ℕ)} (awaited : some moment ∈ moments)
    (later : now < moment) (first : ∀ other, some other ∈ moments → now < other → moment ≤ other) :
    nextMoment now moments = some moment := by
  rw [nextMoment, List.min?_eq_some_iff]
  refine ⟨List.mem_filterMap.2 ⟨some moment, awaited, by simp [later]⟩, fun other h => ?_⟩
  obtain ⟨_, mem, kept⟩ := List.mem_filterMap.1 h
  obtain ⟨rfl, ahead⟩ := Option.filter_eq_some_iff.1 kept
  exact first other mem (by simpa using ahead)

/-- A call in flight is waited for to its end, whether or not the signal is raised meanwhile. -/
theorem Comes.finish {request : Request} {finish : ℕ} {outcome : Outcome}
    (calling : w.activity = .calling request finish outcome) (le : now ≤ finish)
    (rest : Comes closed signalAt fuel finish (w.conclude request outcome) result) :
    Comes closed signalAt (fuel + 3) now w result := by
  have opened : w.released = false := by simp [released, calling]
  have deadline : w.deadline? = some finish := by simp [deadline?, calling]
  have atEnd : Comes closed signalAt (fuel + 1) finish w result :=
    .step (by simp [Worker.step, calling]) rest
  have idle {moment : ℕ} (early : moment < finish) :
      w.step moment (raisedBy signalAt moment) closed = none := by
    simp [Worker.step, calling, early]
  rcases le.eq_or_lt with rfl | early
  · exact atEnd.more 2
  by_cases between : ∃ moment ∈ signalAt, now < moment ∧ moment < finish
  · -- the signal is raised while the call lasts: time stops there once, and nothing happens
    obtain ⟨moment, rfl, later, before⟩ := between
    have resumed : Comes closed (some moment) (fuel + 2) moment w result := by
      refine .wait (idle before) opened (nextMoment_eq (by simp [deadline]) before ?_) atEnd
      simp [deadline]
    refine .wait (idle early) opened (nextMoment_eq (by simp) later ?_) resumed
    simp [deadline]
    omega
  · push Not at between
    refine (Comes.wait (idle early) opened (nextMoment_eq (by simp [deadline]) early ?_) atEnd).more 1
    intro other mem ahead
    rw [deadline, List.mem_pair, Option.some.injEq] at mem
    exact mem.elim (fun same => same.ge) fun raised => between other raised.symm ahead

end Runs

section Served

variable {agent : Agent} {limit : ℕ} {queue : List Request} {closed : Bool} {signalAt : Option ℕ}
  {k : ℕ} {w : Worker}

theorem length_timetable : (timetable agent limit queue).length = queue.length := by
  simp [timetable]

theorem startOf_succ (h : k < queue.length) :
    startOf agent limit queue (k + 1) =
      startOf agent limit queue k + (agent.respond k queue[k]).duration limit := by
  have within : k < ((replies agent queue).map (·.wait limit)).length := by
    simpa [replies] using h
  rw [startOf, List.sum_take_succ _ _ within, startOf]
  simp [replies, wait_eq]

theorem startOf_mono : Monotone (startOf agent limit queue) := by
  refine monotone_nat_of_le_succ fun k => ?_
  by_cases h : k < queue.length
  · rw [startOf_succ h]
    omega
  · have all : ∀ j, queue.length ≤ j → startOf agent limit queue j =
        ((replies agent queue).map (·.wait limit)).sum := fun j hj => by
      rw [startOf, List.take_of_length_le (by simpa [replies] using hj)]
    rw [all k (by omega), all (k + 1) (by omega)]

/-- A worker has made its first calls and is ready for the next one. -/
structure Served (agent : Agent) (limit : ℕ) (queue : List Request) (k : ℕ) (w : Worker) : Prop where
  waiting : w.activity = .waiting
  sameAgent : w.agent = agent
  sameLimit : w.limit = limit
  left : w.queue = queue.drop k
  calls : w.calls = ((timetable agent limit queue).take k).map (·.1)

/-- After one more call it has made one more. -/
theorem Served.next (served : Served agent limit queue k w) (h : k < queue.length)
    (steady : agent.Steady limit) :
    Served agent limit queue (k + 1)
      ((w.call (startOf agent limit queue k) queue[k] (queue.drop (k + 1))).conclude queue[k]
        ((agent.respond k queue[k]).outcome limit)) := by
  rw [conclude_of_mark (mark_of_steady steady _ _)]
  refine ⟨rfl, served.sameAgent, served.sameLimit, rfl, ?_⟩
  have within : k < (timetable agent limit queue).length := by rwa [length_timetable]
  rw [List.take_succ_eq_append_getElem within, List.map_append, ← served.calls]
  simp [Worker.call, timetable]

/-- What becomes of a worker that is run. -/
structure Halts (agent : Agent) (limit : ℕ) (queue : List Request) (closed : Bool)
    (signalAt : Option ℕ) (made moment : ℕ) (cancelled : Bool) (w : Worker) : Prop where
  stopped : w.activity = .stopped cancelled
  calls : w.calls = ((timetable agent limit queue).take made).map (·.1)
  made_le : made ≤ queue.length
  before : ∀ k < queue.length, k < made ↔ ∀ raise ∈ signalAt, startOf agent limit queue k < raise
  drained : cancelled = false → closed = true ∧ made = queue.length ∧
    (∀ raise ∈ signalAt, startOf agent limit queue queue.length < raise) ∧
    moment = startOf agent limit queue queue.length
  cut : cancelled = true → ∃ raise, signalAt = some raise ∧
    (closed = true → raise ≤ startOf agent limit queue queue.length) ∧
    moment = max raise (startOf agent limit queue made)

section Stops

variable (served : Served agent limit queue k w) (le : k ≤ queue.length)
  (before : ∀ j < k, ∀ raise ∈ signalAt, startOf agent limit queue j < raise)

include served le before

/-- The signal has been raised when the next call would be made. -/
theorem Served.halts_raised (closed : Bool) {raise : ℕ} (signal : signalAt = some raise)
    (raised : raise ≤ startOf agent limit queue k) :
    Comes closed signalAt 2 (startOf agent limit queue k) w
        (startOf agent limit queue k, w.stop true) ∧
      Halts agent limit queue closed signalAt k (startOf agent limit queue k) true (w.stop true) := by
  constructor
  · have now : raisedBy signalAt (startOf agent limit queue k) = true :=
      raisedBy_eq_true_iff.2 ⟨raise, signal, raised⟩
    exact .step (by rw [now]; exact step_signal served.waiting _ _) (comes_of_stopped rfl)
  · refine ⟨rfl, served.calls, le, fun j hj => ⟨before j, fun early => ?_⟩, by simp,
      fun _ => ?_⟩
    · by_contra late
      have later : startOf agent limit queue k ≤ startOf agent limit queue j :=
        startOf_mono (not_lt.1 late)
      have := early raise signal
      omega
    · exact ⟨raise, signal, fun _ => raised.trans (startOf_mono le), by omega⟩

end Stops

/-- A worker with nothing left to do before the signal is raised waits for the signal or ends. -/
theorem Served.halts_empty (served : Served agent limit queue queue.length w)
    (ends : closed = true ∨ signalAt ≠ none)
    (quiet : ∀ raise ∈ signalAt, startOf agent limit queue queue.length < raise) :
    ∃ moment cancelled v,
      Comes closed signalAt 3 (startOf agent limit queue queue.length) w (moment, v) ∧
        Halts agent limit queue closed signalAt queue.length moment cancelled v := by
  have early : ∀ j < queue.length, ∀ raise ∈ signalAt, startOf agent limit queue j < raise :=
    fun j hj raise h => (startOf_mono hj.le).trans_lt (quiet raise h)
  have unraised := raisedBy_eq_false_iff.2 quiet
  have empty : w.queue = [] := by rw [served.left, List.drop_length]
  cases closed with
  | true =>
    have stops : Comes true signalAt 2 (startOf agent limit queue queue.length) w
        (startOf agent limit queue queue.length, w.stop false) :=
      .step (by simp [Worker.step, served.waiting, unraised, empty]) (comes_of_stopped rfl)
    exact ⟨_, false, w.stop false, stops.more 1,
      rfl, served.calls, le_rfl, fun j hj => ⟨fun _ => early j hj, fun _ => hj⟩,
      fun _ => ⟨rfl, rfl, quiet, rfl⟩, by simp⟩
  | false =>
    obtain ⟨raise, rfl⟩ := Option.ne_none_iff_exists'.1 (ends.resolve_left Bool.false_ne_true)
    have later := quiet raise rfl
    have stops : Comes false (some raise) 2 raise w (raise, w.stop true) := by
      refine .step ?_ (comes_of_stopped rfl)
      rw [raisedBy_eq_true_iff.2 ⟨raise, rfl, le_rfl⟩]
      exact step_signal served.waiting _ _
    refine ⟨raise, true, w.stop true, .wait ?_ ?_ (nextMoment_eq (by simp) later ?_) stops,
      rfl, served.calls, le_rfl, fun j hj => ⟨fun _ => early j hj, fun _ => hj⟩, by simp,
      fun _ => ⟨raise, rfl, by simp, by omega⟩⟩
    · simp [Worker.step, served.waiting, unraised, empty]
    · simp [released, served.waiting]
    · simp [deadline?, served.waiting]

theorem Served.halts (served : Served agent limit queue k w) (le : k ≤ queue.length)
    (steady : agent.Steady limit) (ends : closed = true ∨ signalAt ≠ none)
    (before : ∀ j < k, ∀ raise ∈ signalAt, startOf agent limit queue j < raise) :
    ∃ made moment cancelled v,
      Comes closed signalAt (4 * (queue.length - k) + 3) (startOf agent limit queue k) w
          (moment, v) ∧
        Halts agent limit queue closed signalAt made moment cancelled v := by
  -- by induction on the requests that are left: either the signal has been raised by the time of the
  -- next call, or that call is made and waited for
  induction left : queue.length - k generalizing k w with
  | zero =>
    obtain rfl : k = queue.length := by omega
    by_cases quiet : ∀ raise ∈ signalAt, startOf agent limit queue queue.length < raise
    · obtain ⟨moment, cancelled, v, comes, halts⟩ := served.halts_empty ends quiet
      exact ⟨_, moment, cancelled, v, comes, halts⟩
    · push Not at quiet
      obtain ⟨raise, signal, raised⟩ := quiet
      obtain ⟨comes, halts⟩ := served.halts_raised le before closed signal raised
      exact ⟨_, _, _, _, comes.more 1, halts⟩
  | succ m ih =>
    have within : k < queue.length := by omega
    by_cases quiet : ∀ raise ∈ signalAt, startOf agent limit queue k < raise
    · have next := served.next within steady
      have front : w.queue = queue[k] :: queue.drop (k + 1) := by
        rw [served.left, List.drop_eq_getElem_cons within]
      obtain ⟨made, moment, cancelled, v, comes, halts⟩ := ih next within (fun j hj => by
        rcases Nat.lt_succ_iff_lt_or_eq.1 hj with hj | rfl
        · exact before j hj
        · exact quiet) (by omega)
      refine ⟨made, moment, cancelled, v, ?_, halts⟩
      have calls : w.calls.length = k := by
        simp [served.calls, length_timetable, within.le]
      have call : w.step (startOf agent limit queue k)
          (raisedBy signalAt (startOf agent limit queue k)) closed =
            some (w.call (startOf agent limit queue k) queue[k] (queue.drop (k + 1))) := by
        simp only [Worker.step, served.waiting, raisedBy_eq_false_iff.2 quiet, front]
        rfl
      change Comes closed signalAt (4 * m + 3 + 3 + 1) _ _ _
      refine .step call (.finish (call_activity _ _ _ _) (by omega) ?_)
      rw [served.sameAgent, served.sameLimit, calls, ← startOf_succ within]
      exact comes
    · push Not at quiet
      obtain ⟨raise, signal, raised⟩ := quiet
      obtain ⟨comes, halts⟩ := served.halts_raised le before closed signal raised
      exact ⟨_, _, _, _, comes.mono (by omega), halts⟩

/-! ## The whole run -/

/-- A worker that has ended with a result has made the first so many calls of the timetable at their
moments. They came to what is foretold, count as that and have their entries in the log. -/
structure Folded (agent : Agent) (limit : ℕ) (queue : List Request) (made : ℕ) (w : Worker)
    (result : Except RunError Stats) : Prop where
  ended : Relay.workerEnd? w = some result
  conclusions : w.conclusions = (timetable agent limit queue).take made
  received : w.counts.received = made
  counts : ∀ mark, w.counts.get mark =
    (((replies agent queue).take made).map (markOf limit)).count mark
  journal : Journal w result

theorem occurrences_outcome {replies : List Reply}
    (steady : ∀ r ∈ replies, ∀ reason, r.outcome limit ≠ .crash reason) (mark : Mark) :
    occurrences mark (replies.map (·.outcome limit)) = (replies.map (markOf limit)).count mark := by
  rw [occurrences, List.countP_map, List.count, List.countP_map]
  refine List.countP_congr fun r hr => ?_
  simp [mark?_outcome (steady r hr)]

variable {index made moment : ℕ} {cancelled : Bool}

theorem Halts.conclusions_eq (halts : Halts agent limit queue closed signalAt made moment cancelled w)
    (sameAgent : w.agent = agent) (sameLimit : w.limit = limit) :
    w.conclusions = (timetable agent limit queue).take made := by
  refine List.ext_getElem? fun k => ?_
  rw [conclusions, List.getElem?_mapIdx, halts.calls, List.getElem?_map]
  by_cases early : k < made
  · simp [List.getElem?_take_of_lt early, timetable, outcomeOf, sameAgent, sameLimit,
      Function.comp_def]
  · simp [List.getElem?_take_eq_none (not_lt.1 early)]

theorem Halts.folded (halts : Halts agent limit queue closed signalAt made moment cancelled w)
    (lives : Lives (fresh index agent limit queue) w) (steady : agent.Steady limit)
    {result : Except RunError Stats} (ended : Relay.workerEnd? w = some result) :
    Folded agent limit queue made w result := by
  obtain ⟨sameAgent, sameLimit⟩ := lives.agent_limit
  have account := lives.account (account_fresh index agent limit queue)
  have conclusions := halts.conclusions_eq sameAgent sameLimit
  have settled : w.settled = w.calls := by rw [settled, halts.stopped]
  have outcomes : w.outcomes = ((replies agent queue).take made).map (·.outcome limit) := by
    rw [outcomes_eq settled, conclusions, List.map_take, List.map_take]
    simp [timetable, replies, List.mapIdx_eq_zipIdx_map, Function.comp_def]
  refine ⟨ended, conclusions, ?_, fun mark => ?_, account.journal halts.stopped ended⟩
  · rw [account.counts, halts.calls]
    simp [Counts.of, length_timetable, halts.made_le]
  · rw [account.counts, get_of, outcomes, occurrences_outcome]
    intro r hr
    obtain ⟨k, within, rfl⟩ := List.mem_mapIdx.1 (List.mem_of_mem_take hr)
    exact steady _ _

theorem Halts.workerEnd?_eq
    (halts : Halts agent limit queue closed signalAt made moment cancelled w) :
    Relay.workerEnd? w = some (if cancelled then .error .cancelled else .ok w.stats) := by
  rw [Relay.workerEnd?, halts.stopped]
  cases cancelled <;> rfl

/-- A worker that is run alone comes to an end if its queue is closed or the signal is raised. -/
theorem exists_halts (index : ℕ) (steady : agent.Steady limit) (queue : List Request)
    (closed : Bool) (signalAt : Option ℕ) (ends : closed = true ∨ signalAt ≠ none) :
    ∃ made moment cancelled v,
      (fresh index agent limit queue).run closed signalAt = some (moment, v) ∧
        Halts agent limit queue closed signalAt made moment cancelled v ∧
        Folded agent limit queue made v (if cancelled then .error .cancelled else .ok v.stats) := by
  have served : Served agent limit queue 0 (fresh index agent limit queue).begin :=
    ⟨rfl, rfl, rfl, rfl, rfl⟩
  obtain ⟨made, moment, cancelled, v, comes, halts⟩ :=
    served.halts (Nat.zero_le _) steady ends (by simp)
  have ran : (fresh index agent limit queue).run closed signalAt = some (moment, v) := by
    have begun : Comes closed signalAt (4 * queue.length + 4) 0 (fresh index agent limit queue)
        (moment, v) := .step rfl (by simpa [startOf] using comes)
    have fuel : 2 * (fresh index agent limit queue).work + 3 = 4 * queue.length + 4 + 3 := by
      simp only [work, fresh, Activity.work]
      omega
    rw [run, fuel]
    exact begun 3
  exact ⟨made, moment, cancelled, v, ran, halts,
    halts.folded (lives_run ran).1 steady halts.workerEnd?_eq⟩

/-- A worker alone serves its queue as the timetable foretells. If the queue is closed it makes every
call and ends when the last one does. A signal cuts off the calls that would begin at its moment or
later; the worker still ends with its counts if its queue is closed and served by then, and otherwise
it is cancelled, once the signal is raised and the last call that it made has ended. -/
theorem run_eq_fold (index : ℕ) (agent : Agent) (limit : ℕ) (queue : List Request)
    (steady : agent.Steady limit) :
    (∃ w, (fresh index agent limit queue).run true none =
        some (startOf agent limit queue queue.length, w) ∧
      Folded agent limit queue queue.length w (.ok w.stats)) ∧
    (∀ closed raise, ∃ made moment w,
      (fresh index agent limit queue).run closed (some raise) = some (moment, w) ∧
      made ≤ queue.length ∧
      (∀ k < queue.length, k < made ↔ startOf agent limit queue k < raise) ∧
      if closed = true ∧ startOf agent limit queue queue.length < raise then
        moment = startOf agent limit queue queue.length ∧
          Folded agent limit queue made w (.ok w.stats)
      else
        moment = max raise (startOf agent limit queue made) ∧
          Folded agent limit queue made w (.error .cancelled)) ∧
    ∀ closed, ∃ w, (fresh index agent limit queue).run closed (some 0) = some (0, w) ∧
      w.calls = [] ∧ Folded agent limit queue 0 w (.error .cancelled) := by
  refine ⟨?_, fun closed raise => ?_, fun closed => ?_⟩
  · obtain ⟨made, moment, cancelled, w, ran, halts, folded⟩ :=
      exists_halts index steady queue true none (.inl rfl)
    cases cancelled with
    | true =>
      obtain ⟨raise, signal, -⟩ := halts.cut rfl
      cases signal
    | false =>
      obtain ⟨-, rfl, -, rfl⟩ := halts.drained rfl
      exact ⟨w, ran, folded⟩
  · obtain ⟨made, moment, cancelled, w, ran, halts, folded⟩ :=
      exists_halts index steady queue closed (some raise) (.inr (by simp))
    refine ⟨made, moment, w, ran, halts.made_le, fun k hk => by simpa using halts.before k hk, ?_⟩
    cases cancelled with
    | true =>
      obtain ⟨_, ⟨⟩, late, rfl⟩ := halts.cut rfl
      rw [if_neg fun ⟨shut, early⟩ => (late shut).not_gt early]
      exact ⟨rfl, folded⟩
    | false =>
      obtain ⟨shut, -, early, rfl⟩ := halts.drained rfl
      rw [if_pos ⟨shut, early raise rfl⟩]
      exact ⟨rfl, folded⟩
  · obtain ⟨made, moment, cancelled, w, ran, halts, folded⟩ :=
      exists_halts index steady queue closed (some 0) (.inr (by simp))
    have none : made = 0 := by
      by_contra some
      have first := (halts.before 0 (by have := halts.made_le; omega)).1 (by omega) 0 rfl
      omega
    subst none
    cases cancelled with
    | true =>
      obtain ⟨_, ⟨⟩, -, rfl⟩ := halts.cut rfl
      exact ⟨w, ran, halts.calls, folded⟩
    | false =>
      obtain ⟨-, -, early, -⟩ := halts.drained rfl
      exact absurd (early 0 rfl) (Nat.not_lt_zero _)

end Served

/-- Three requests, for which that agent is called at the moments 0, 5 and 8. -/
def threeRequests : List Request :=
  [plainRequest, plainRequest, plainRequest]

theorem startOf_tiringAgent :
    startOf tiringAgent 10 threeRequests 1 = 5 ∧ startOf tiringAgent 10 threeRequests 2 = 8 :=
  ⟨rfl, rfl⟩

/-- Without a signal, with one during the second call, after the last one, at the end of an open queue
and before the start. -/
theorem run_eq_fold_tiringAgent :
    let worker := fresh 0 tiringAgent 10 threeRequests
    let folded := Folded tiringAgent 10 threeRequests
    tiringAgent.Steady 10 ∧
    (∃ w, worker.run true none = some (18, w) ∧ folded 3 w (.ok w.stats)) ∧
    (∃ w, worker.run true (some 7) = some (8, w) ∧ folded 2 w (.error .cancelled)) ∧
    (∃ w, worker.run true (some 20) = some (18, w) ∧ folded 3 w (.ok w.stats)) ∧
    (∃ w, worker.run false (some 20) = some (20, w) ∧ folded 3 w (.error .cancelled)) ∧
    ∃ w, worker.run true (some 0) = some (0, w) ∧ w.calls = [] ∧ folded 0 w (.error .cancelled) := by
  intro worker folded
  obtain ⟨unsignalled, signalled, early⟩ :=
    run_eq_fold 0 tiringAgent 10 threeRequests steady_tiringAgent
  obtain ⟨second, third⟩ := startOf_tiringAgent
  refine ⟨steady_tiringAgent, unsignalled, ?_, ?_, ?_, early true⟩
  · obtain ⟨made, moment, w, ran, -, before, ends⟩ := signalled true 7
    have called := before 1 (by decide)
    have uncalled := before 2 (by decide)
    obtain rfl : made = 2 := by omega
    rw [if_neg (by decide)] at ends
    obtain ⟨rfl, folds⟩ := ends
    exact ⟨w, ran, folds⟩
  · obtain ⟨made, moment, w, ran, le, before, ends⟩ := signalled true 20
    have called := before 2 (by decide)
    obtain rfl : made = 3 := by
      have le : made ≤ 3 := le
      omega
    rw [if_pos (by decide)] at ends
    obtain ⟨rfl, folds⟩ := ends
    exact ⟨w, ran, folds⟩
  · obtain ⟨made, moment, w, ran, le, before, ends⟩ := signalled false 20
    have called := before 2 (by decide)
    obtain rfl : made = 3 := by
      have le : made ≤ 3 := le
      omega
    rw [if_neg (by decide)] at ends
    obtain ⟨rfl, folds⟩ := ends
    exact ⟨w, ran, folds⟩

end Worker

end TxRelay
