import TxRelay.Proofs.Relay.Delivery

/-!
# Bounded skew

A queue holds no more requests than it has room for, and ingestion has one request in hand at most.
So no agent is further behind the feed than its queue and that request, and no agent is further
ahead of another. What was placed for a worker stays within its calls and the room of its queue even
when the worker has given the queue up, since nothing is put on it from then on.

Results:
* `placed_congr`: how much is placed for a worker depends on the count of requests dispatched only.
* `slack_of_run`: what a worker has still to call its agent with, in any state of any run.
* `bounded_skew`: how far agents can be behind ingestion and behind each other.
-/

namespace TxRelay.Relay

/-- How much is placed for a worker depends on the number of requests dispatched alone. -/
theorem placed_congr {n full next full' next' index : ℕ}
    (same : n * full + next = n * full' + next') (le : next ≤ n) (le' : next' ≤ n)
    (lt : index < n) : placed full next index = placed full' next' index := by
  wlog hle : full ≤ full' generalizing full next full' next'
  · exact (this same.symm le' le (Nat.le_of_not_le hle)).symm
  obtain ⟨k, rfl⟩ := Nat.exists_eq_add_of_le hle
  rw [Nat.mul_add] at same
  cases k with
  | zero =>
    obtain rfl : next = next' := by omega
    rfl
  | succ k =>
    -- a broadcast more is counted as complete, and it was complete before
    rw [Nat.mul_succ] at same
    have hk : k = 0 := (Nat.mul_eq_zero.1 (by omega : n * k = 0)).resolve_left (by omega)
    subst hk
    unfold placed
    split_ifs <;> omega

theorem Delivery.placed_eq {s t : State} {full next full' next' index : ℕ}
    (h : Delivery s full next) (h' : Delivery t full' next')
    (dispatched : t.ingestion.totals.dispatched = s.ingestion.totals.dispatched)
    (length : t.workers.length = s.workers.length) (lt : index < s.workers.length) :
    placed full next index = placed full' next' index := by
  have le' := h'.broadcast.le
  rw [h'.broadcast.dispatched, h.broadcast.dispatched] at dispatched
  rw [length] at le' dispatched
  exact placed_congr dispatched.symm h.broadcast.le le' lt

/-- What a worker has still to call its agent with fits on its queue. -/
structure Slack (s : State) (full next : ℕ) : Prop where
  queue : ∀ w ∈ s.workers, w.queue.length ≤ s.setup.room
  given : ∀ {index : ℕ} {w : Worker}, s.workers[index]? = some w →
    placed full next index ≤ w.calls.length + s.setup.room

section Slack

variable {s t : State} {full next full' next' : ℕ}

/-- A step that dispatches nothing places nothing for any worker. -/
theorem Slack.leave (h : Slack s full next) (before : Delivery s full next)
    (after : Delivery t full' next') (setup : t.setup = s.setup)
    (dispatched : t.ingestion.totals.dispatched = s.ingestion.totals.dispatched)
    (workers : t.workers = s.workers) : Slack t full' next' where
  queue w hw := by
    rw [setup]
    exact h.queue w (workers ▸ hw)
  given {index w} hw := by
    rw [workers] at hw
    rw [setup, ← before.placed_eq after dispatched (by rw [workers])
      (List.getElem?_eq_some_iff.1 hw).1]
    exact h.given hw

/-- A step of a worker takes requests from its queue only to call with them, or gives the queue up.
-/
theorem queue_of_step {now : ℕ} {signal closed : Bool} {w v : Worker}
    (step : w.Step now signal closed v) :
    v.queue.length ≤ w.queue.length ∧ w.calls.length ≤ v.calls.length := by
  cases step with
  | begin | cancel | drained => exact ⟨by simp [Worker.begin, Worker.stop], le_rfl⟩
  | call waiting quiet front => simp [Worker.call, front]
  | @conclude request finish outcome =>
    refine ⟨?_, (congrArg List.length (Worker.conclude_calls w request outcome)).ge⟩
    unfold Worker.conclude
    split
    · exact Nat.zero_le _
    · exact le_rfl

theorem Slack.workerStep (h : Slack s full next) (before : Delivery s full next) {index : ℕ}
    {w v : Worker} (worker : s.workers[index]? = some w) (step : w.Step s.now s.signal s.closed v)
    (after : Delivery (s.setWorker index v) full' next') :
    Slack (s.setWorker index v) full' next' where
  queue u hu := by
    rcases List.mem_or_eq_of_mem_set hu with hu | rfl
    · exact h.queue u hu
    · exact (queue_of_step step).1.trans (h.queue w (List.mem_of_getElem? worker))
  given {j u} hu := by
    have length : (s.setWorker index v).workers.length = s.workers.length := List.length_set
    rw [← before.placed_eq after rfl length (length ▸ (List.getElem?_eq_some_iff.1 hu).1)]
    simp only [State.setWorker, List.getElem?_set] at hu
    split_ifs at hu with hj
    · subst hj
      obtain rfl := Option.some.inj hu
      exact (h.given worker).trans (Nat.add_le_add_right (queue_of_step step).2 _)
    · exact h.given hu

/-- A request is put on a queue only when there is room for it. -/
theorem Slack.push (h : Slack s full next) (before : Delivery s full next) {request : Request}
    {index : ℕ} {w : Worker} (worker : s.workers[index]? = some w) (opened : w.released = false)
    (room : w.queue.length < s.setup.room)
    (placing : s.ingestion.activity = .placing request index)
    (after : Delivery (s.push request index w) full' next') :
    Slack (s.push request index w) full' next' where
  queue v hv := by
    rcases List.mem_or_eq_of_mem_set hv with hv | rfl
    · exact h.queue v hv
    · simpa [State.push] using room
  given {j v} hv := by
    obtain ⟨rfl, request', htagged, hlength⟩ := before.broadcast.placing placing
    have same := before.broadcast.dispatched
    have same' := after.broadcast.dispatched
    have le' := after.broadcast.le
    have hindex := (List.getElem?_eq_some_iff.1 worker).1
    simp only [State.push, List.length_set] at same' le' hv
    have lt : j < s.workers.length := by
      simpa using (List.getElem?_eq_some_iff.1 hv).1
    have hplaced : placed full (index + 1) j = placed full' next' j :=
      placed_congr (by omega) hindex le' lt
    rw [← hplaced]
    rw [List.getElem?_set] at hv
    split_ifs at hv with hj
    · subst hj
      obtain rfl := Option.some.inj hv
      have hqueued := congrArg List.length ((before.served worker).queued opened)
      have hfull : placed full index index = full := by simp [placed]
      rw [hfull, htagged, List.take_left' hlength, hlength] at hqueued
      simp only [List.length_append, List.length_map] at hqueued
      have hle := placed_le full (index + 1) index
      change placed full (index + 1) index ≤ w.calls.length + s.setup.room
      omega
    · have hsame : placed full (index + 1) j = placed full index j := by
        unfold placed; split_ifs <;> omega
      rw [hsame]
      exact h.given hv

theorem Slack.happens {m : Move} (h : Slack s full next) (before : Delivery s full next)
    (move : Happens s m t) (after : Delivery t full' next') : Slack t full' next' := by
  cases move with
  | ingestion step =>
    cases step with
    | push placing quiet worker opened room => exact h.push before worker opened room placing after
    | cancel | exhaust | skip | tag | pause | fail | resume | finish | dead =>
      exact h.leave before after rfl rfl rfl
  | worker worker step => exact h.workerStep before worker step after
  | join => exact h.leave before after (by simp) (by simp) (by simp)
  | conclude => exact h.leave before after (by simp) (by simp) (by simp)
  | pass | raise => exact h.leave before after rfl rfl rfl

end Slack

theorem slack_start (setup : Setup) (signal : Bool) : Slack (.start setup signal) 0 0 where
  queue w hw := by
    obtain ⟨index, hindex⟩ := List.mem_iff_getElem?.1 hw
    obtain ⟨agent, -, rfl⟩ := worker_start hindex
    exact Nat.zero_le _
  given _ := by simp [placed]

/-- What a worker has still to call its agent with, in any state of any run. -/
theorem slack_of_run {setup : Setup} {signal : Bool} {moves : List Move} {t : State}
    (run : Run (.start setup signal) moves t) :
    ∃ full next, Delivery t full next ∧ Slack t full next := by
  refine run.keeps (P := fun t => ∃ full next, Delivery t full next ∧ Slack t full next) ?_
    ⟨0, 0, delivery_start setup signal, slack_start setup signal⟩
  rintro s m t ⟨full, next, delivery, slack⟩ move
  have happens := happens_of_after move
  obtain ⟨full', next', after⟩ := delivery.happens happens
  exact ⟨full', next', after, slack.happens delivery happens after⟩

/-! ## Behind ingestion, and behind each other -/

/-- How far the agents are behind ingestion and behind each other. -/
structure BoundedSkew (setup : Setup) (t : State) : Prop where
  queue : ∀ w ∈ t.workers, w.queue.length ≤ setup.room
  /-- Behind ingestion an agent is by what is on its queue and the request in hand. -/
  tagged : ∀ w ∈ t.workers,
    t.ingestion.tagged.length ≤ w.counts.received + setup.room + 1
  apart : ∀ v ∈ t.workers, ∀ w ∈ t.workers,
    v.counts.received ≤ w.counts.received + setup.room + 1
  /-- An agent has the request in hand only after those in front of it. -/
  ordered : ∀ {i j : ℕ} {v w : Worker}, j < i → t.workers[i]? = some v → t.workers[j]? = some w →
    v.counts.received ≤ w.counts.received + setup.room

/-- In any state of any run, whatever the order of the steps, the faults and the moment of a signal,
no agent is further behind than the room of its queue and the request in hand. -/
theorem bounded_skew {setup : Setup} {signal : Bool} {s t : State} {moves : List Move}
    (launched : launch setup signal = .ok s) (run : Run s moves t) :
    t.workers.length = setup.agents.length ∧ BoundedSkew setup t := by
  obtain ⟨rfl, -, -⟩ := launch_eq_ok launched
  obtain ⟨full, next, delivery, slack⟩ := slack_of_run run
  have crew := crew_of_run run
  have hsetup : t.setup = setup := run.setup
  have received {w : Worker} (hw : w ∈ t.workers) : w.counts.received = w.calls.length := by
    rw [(crew.account w hw).counts]; rfl
  -- what an agent was called with was placed for it, and what was placed is called or fits
  have least {index : ℕ} {w : Worker} (hw : t.workers[index]? = some w) :
      placed full next index ≤ w.counts.received + setup.room := by
    rw [received (List.mem_of_getElem? hw), ← hsetup]
    exact slack.given hw
  have most {index : ℕ} {w : Worker} (hw : t.workers[index]? = some w) :
      w.counts.received ≤ placed full next index := by
    rw [received (List.mem_of_getElem? hw)]
    have hlength := (delivery.served hw).called.length_le
    rw [List.length_map, List.length_take] at hlength
    omega
  have ahead (index : ℕ) : t.ingestion.tagged.length ≤ placed full next index + 1 := by
    unfold placed
    rcases delivery.broadcast.tagged with ⟨hlength, -⟩ | hlength <;> omega
  have within {index : ℕ} {w : Worker} (hw : t.workers[index]? = some w) :
      w.counts.received ≤ t.ingestion.tagged.length := by
    rw [received (List.mem_of_getElem? hw)]
    have hlength := (delivery.served hw).called.length_le
    rw [List.length_map, List.length_take] at hlength
    omega
  refine ⟨crew.length, ?_, ?_, ?_, ?_⟩
  · intro w hw
    rw [← hsetup]
    exact slack.queue w hw
  · intro w hw
    obtain ⟨index, hindex⟩ := List.mem_iff_getElem?.1 hw
    have hleast := least hindex
    have hahead := ahead index
    omega
  · intro v hv w hw
    obtain ⟨i, hi⟩ := List.mem_iff_getElem?.1 hv
    obtain ⟨j, hj⟩ := List.mem_iff_getElem?.1 hw
    have hwithin := within hi
    have hleast := least hj
    have hahead := ahead j
    omega
  · intro i j v w hlt hv hw
    have hmost := most hv
    have hleast := least hw
    have hanti := placed_anti full next hlt.le
    omega

/-- Three agents, the second of which does not answer, and queues with room for one request. -/
def skewedSetup : Setup where
  name := defaultName
  capacity := 1
  limit := 50
  agents := [.scripted "a" [], .scripted "b" [⟨0, .silence⟩], .scripted "c" []]
  feed := List.replicate 5 (.item (.event plainEvent))
  ids := toString

/-- The relay when ingestion waits for room on the second queue. All bounds are attained. -/
def skewedState : State :=
  (State.start skewedSetup false).runFrom none 26

theorem bounded_skew_skewedSetup :
    launch skewedSetup false = .ok (.start skewedSetup false) ∧
    (∃ moves, Run (.start skewedSetup false) moves skewedState) ∧ skewedSetup.room = 1 ∧
    skewedState.ingestion.tagged.length = 3 ∧
    skewedState.workers.map (fun w => (w.counts.received, w.queue.length)) =
      [(3, 0), (1, 1), (2, 0)] ∧
    BoundedSkew skewedSetup skewedState := by
  obtain ⟨moves, run, -⟩ := run_runFrom none 26 (.start skewedSetup false)
  have launched : launch skewedSetup false = .ok (.start skewedSetup false) := rfl
  exact ⟨launched, ⟨moves, run⟩, rfl, by decide +kernel, by decide +kernel,
    (bounded_skew launched run).2⟩

end TxRelay.Relay
