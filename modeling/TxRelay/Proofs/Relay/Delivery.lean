import TxRelay.Proofs.Relay.Intake

/-!
# Delivery

A broadcast puts a request on the queues in their order, so at any moment the queues differ by at
most one request, and those in front have it. What a worker has called its agent with, followed by
what waits on its queue, is what was put there, in the order of the feed.

Results:
* `delivery_of_run`: how far the broadcast is, and what each worker has of the requests tagged so
  far.
* `delivered_in_order`: the same in terms of the number of requests placed for each agent, with the
  calls in flight and the count of requests dispatched.
-/

namespace TxRelay.Relay

/-! ## The crew -/

/-- The workers serve the agents in their order, and their accounts are kept. -/
structure Crew (setup : Setup) (workers : List Worker) : Prop where
  length : workers.length = setup.agents.length
  agent : ∀ {index : ℕ} {w : Worker}, workers[index]? = some w →
    setup.agents[index]? = some w.agent
  limit : ∀ w ∈ workers, w.limit = setup.limit
  account : ∀ w ∈ workers, w.Account

theorem crew_start (setup : Setup) (signal : Bool) :
    Crew setup (State.start setup signal).workers where
  length := start_workers setup signal
  agent h := by
    obtain ⟨agent, hagent, rfl⟩ := worker_start h
    exact hagent
  limit w h := by
    obtain ⟨index, hindex⟩ := List.mem_iff_getElem?.1 h
    obtain ⟨agent, -, rfl⟩ := worker_start hindex
    rfl
  account w h := by
    obtain ⟨index, hindex⟩ := List.mem_iff_getElem?.1 h
    obtain ⟨agent, -, rfl⟩ := worker_start hindex
    exact Worker.account_fresh index agent setup.limit []

/-- A worker may be replaced by one that serves the same agent. -/
theorem Crew.set {setup : Setup} {workers : List Worker} (h : Crew setup workers) {index : ℕ}
    {w next : Worker} (worker : workers[index]? = some w) (agent : next.agent = w.agent)
    (limit : next.limit = w.limit) (account : next.Account) :
    Crew setup (workers.set index next) where
  length := by rw [List.length_set, h.length]
  agent {i v} hv := by
    rw [List.getElem?_set] at hv
    split_ifs at hv with hi hlt
    · obtain rfl := hi
      rw [← Option.some.inj hv, agent]
      exact h.agent worker
    · exact h.agent hv
  limit v hv := by
    rcases List.mem_or_eq_of_mem_set hv with hv | rfl
    · exact h.limit v hv
    · rw [limit]
      exact h.limit w (List.mem_of_getElem? worker)
  account v hv := by
    rcases List.mem_or_eq_of_mem_set hv with hv | rfl
    · exact h.account v hv
    · exact account

theorem Crew.happens {s t : State} {m : Move} (h : Crew s.setup s.workers) (move : Happens s m t) :
    Crew t.setup t.workers := by
  rw [move.setup]
  cases move with
  | ingestion step =>
    cases step with
    | push placing quiet worker opened room =>
      have account := h.account _ (List.mem_of_getElem? worker)
      exact h.set worker rfl rfl (account.setQueue _)
    | cancel | exhaust | skip | tag | pause | fail | resume | finish | dead => exact h
  | @worker index w next worker step =>
    have account := h.account w (List.mem_of_getElem? worker)
    obtain ⟨agent, limit⟩ := step.agent_limit
    exact h.set worker agent limit (account.step step)
  | join => simpa using h
  | conclude => simpa using h
  | pass | raise => exact h

theorem crew_of_run {setup : Setup} {signal : Bool} {moves : List Move} {t : State}
    (run : Run (.start setup signal) moves t) : Crew setup t.workers := by
  have h := run.keeps (P := fun t => Crew t.setup t.workers)
    (fun h move => h.happens (happens_of_after move)) (crew_start setup signal)
  rwa [run.setup] at h

/-! ## The broadcast -/

/-- The number of requests that are on a queue, or have been, when `full` requests have been put on
every queue and one more on those before the `next`-th. -/
def placed (full next index : ℕ) : ℕ :=
  full + if index < next then 1 else 0

theorem placed_zero (full index : ℕ) : placed full 0 index = full := by
  simp [placed]

theorem placed_le (full next index : ℕ) : placed full next index ≤ full + 1 := by
  unfold placed; split_ifs <;> omega

theorem placed_anti (full next : ℕ) {i j : ℕ} (h : i ≤ j) :
    placed full next j ≤ placed full next i := by
  unfold placed; split_ifs <;> omega

/-- Altogether the queues have been given what was dispatched. -/
theorem sum_placed {n next : ℕ} (full : ℕ) (h : next ≤ n) :
    ∑ index ∈ Finset.range n, placed full next index = n * full + next := by
  have hfront : (Finset.range n).filter (· < next) = Finset.range next := by
    ext index
    simp only [Finset.mem_filter, Finset.mem_range]
    omega
  simp only [placed, Finset.sum_add_distrib, Finset.sum_const, Finset.card_range, smul_eq_mul]
  rw [← Finset.sum_filter, hfront]
  simp

/-- How far ingestion is with its broadcast on `n` queues. -/
structure Broadcast (i : Ingestion) (n full next : ℕ) : Prop where
  dispatched : i.totals.dispatched = n * full + next
  le : next ≤ n
  tagged : i.tagged.length = full ∧ next = 0 ∨ i.tagged.length = full + 1
  ready : i.activity = .pulling → i.tagged.length = full
  paused : ∀ {finish}, i.activity = .pausing finish → i.tagged.length = full
  /-- The request that is put on the queues is the last that was tagged. -/
  placing : ∀ {request index}, i.activity = .placing request index →
    index = next ∧ ∃ before, i.tagged = before ++ [request] ∧ before.length = full

theorem broadcast_start (setup : Setup) (signal : Bool) (n : ℕ) :
    Broadcast (State.start setup signal).ingestion n 0 0 :=
  ⟨rfl, Nat.zero_le n, .inl ⟨rfl, rfl⟩, fun _ => rfl, by simp, by simp⟩

section Broadcast

variable {i : Ingestion} {n full next : ℕ}

/-- Between two requests the broadcast of the one before is complete. -/
theorem Broadcast.between (h : Broadcast i n full next) (hlength : i.tagged.length = full)
    (activity : Activity) (feed : List Feed.Step) (idle : ∀ request index,
      activity ≠ .placing request index) :
    Broadcast { i with activity, feed } n full next :=
  ⟨h.dispatched, h.le, h.tagged, fun _ => hlength, fun _ => hlength,
    fun ha => absurd ha (idle _ _)⟩

theorem Broadcast.ended (h : Broadcast i n full next) (feed : List Feed.Step) :
    Broadcast { i with activity := .ended, feed } n full next :=
  ⟨h.dispatched, h.le, h.tagged, by simp, by simp, by simp⟩

/-- A request that has been put on every queue counts as one more of the full ones. -/
theorem Broadcast.complete (h : Broadcast i n full next) {request : Request} {index : ℕ}
    (placing : i.activity = .placing request index) (done : n ≤ index) (feed : List Feed.Step) :
    Broadcast { i with activity := .pulling, feed } n (full + 1) 0 ∧ next = n := by
  obtain ⟨rfl, before, htagged, hbefore⟩ := h.placing placing
  have hnext : index = n := le_antisymm h.le done
  have hlength : i.tagged.length = full + 1 := by simp [htagged, hbefore]
  refine ⟨⟨?_, Nat.zero_le n, .inl ⟨hlength, rfl⟩, fun _ => hlength, by simp, by simp⟩, hnext⟩
  change i.totals.dispatched = _
  rw [h.dispatched, hnext, Nat.mul_succ, Nat.add_zero]

end Broadcast

/-! ## What a worker has of the requests -/

/-- A worker's calls, and then its queue, are the requests given to it. -/
structure Served (closed : Bool) (w : Worker) (given : List Request) : Prop where
  queued : w.released = false → w.calls.map (·.request) ++ w.queue = given
  released : w.released = true → w.queue = []
  /-- A worker that stopped by itself has called with all of them. -/
  drained : w.activity = .stopped false → closed = true ∧ w.calls.map (·.request) = given
  called : w.calls.map (·.request) <+: given

theorem Served.mono {closed after : Bool} {w : Worker} {given : List Request}
    (h : Served closed w given) (stays : closed = true → after = true) : Served after w given :=
  ⟨h.queued, h.released, fun ha => ⟨stays (h.drained ha).1, (h.drained ha).2⟩, h.called⟩

/-- A request more on the queue is one more that is given. -/
theorem Served.push {w : Worker} {given : List Request} (h : Served false w given)
    (opened : w.released = false) (request : Request) :
    Served false { w with queue := w.queue ++ [request] } (given ++ [request]) where
  queued _ := by rw [← h.queued opened, List.append_assoc]
  released hr := by rw [show w.released = true from hr] at opened; cases opened
  drained ha := by cases (h.drained ha).1
  called := h.called.trans (List.prefix_append _ _)

theorem Served.step {now : ℕ} {signal closed : Bool} {w next : Worker} {given : List Request}
    (h : Served closed w given) (step : w.Step now signal closed next) :
    Served closed next given := by
  cases step with
  | begin fresh =>
    exact ⟨fun _ => h.queued (by simp [Worker.released, fresh]), by simp, by simp, h.called⟩
  | cancel waiting raised => exact ⟨by simp, fun _ => rfl, by simp, h.called⟩
  | @call request rest waiting quiet front =>
    have hqueued := h.queued (by simp [Worker.released, waiting])
    rw [front] at hqueued
    have hcalls : (w.call now request rest).calls.map (·.request) ++ rest = given := by
      simp [Worker.call, ← hqueued]
    exact ⟨fun _ => hcalls, by simp, by simp, ⟨rest, hcalls⟩⟩
  | drained waiting quiet front ended =>
    have hqueued := h.queued (by simp [Worker.released, waiting])
    rw [front, List.append_nil] at hqueued
    exact ⟨by simp, fun _ => rfl, fun _ => ⟨ended, hqueued⟩, h.called⟩
  | @conclude request finish outcome calling due =>
    have hqueued := h.queued (by simp [Worker.released, calling])
    cases outcome with
    | crash reason => exact ⟨by simp, fun _ => rfl, by simp, h.called⟩
    | verdict v => exact ⟨fun _ => hqueued, by simp, by simp, h.called⟩
    | error e => exact ⟨fun _ => hqueued, by simp, by simp, h.called⟩

/-- How far the broadcast is, and what every worker has of the requests tagged so far. -/
structure Delivery (s : State) (full next : ℕ) : Prop where
  broadcast : Broadcast s.ingestion s.workers.length full next
  served : ∀ {index : ℕ} {w : Worker}, s.workers[index]? = some w →
    Served s.closed w (s.ingestion.tagged.take (placed full next index))

section Delivery

variable {s t : State} {full next : ℕ}

/-- Steps of ingestion that place nothing leave what the workers have. -/
theorem Delivery.leave (h : Delivery s full next) {after : ℕ} (workers : t.workers = s.workers)
    (broadcast : Broadcast t.ingestion s.workers.length full after)
    (tagged : ∀ index < s.workers.length,
      t.ingestion.tagged.take (placed full after index) =
        s.ingestion.tagged.take (placed full next index))
    (stays : s.closed = true → t.closed = true) : Delivery t full after where
  broadcast := by rw [workers]; exact broadcast
  served {index w} hw := by
    rw [workers] at hw
    rw [tagged index (List.getElem?_eq_some_iff.1 hw).1]
    exact (h.served hw).mono stays

/-- The next request is tagged, and nobody has it yet. -/
theorem Delivery.tag (h : Delivery s full next) (ready : s.ingestion.activity = .pulling)
    (rest : List Feed.Step) (message : Message) :
    Delivery ((s.goOn .pulling rest).tag message) full next := by
  have hlength := h.broadcast.ready ready
  have hnext : next = 0 := by
    rcases h.broadcast.tagged with ⟨-, hnext⟩ | hmore
    · exact hnext
    · omega
  subst hnext
  refine h.leave rfl ⟨h.broadcast.dispatched, h.broadcast.le, .inr ?_, by simp, by simp, ?_⟩ ?_ ?_
  · simp [State.tag, State.goOn, State.record, hlength]
  · intro request index placing
    cases placing
    exact ⟨rfl, s.ingestion.tagged, rfl, hlength⟩
  · intro index _
    rw [placed_zero, ← hlength]
    simp [State.tag, State.goOn, State.record]
  · intro hc
    rw [closed_iff, ready] at hc
    cases hc

/-- A request is put on the next queue. -/
theorem Delivery.push (h : Delivery s full next) {request : Request} {index : ℕ} {w : Worker}
    (placing : s.ingestion.activity = .placing request index)
    (worker : s.workers[index]? = some w) (opened : w.released = false) :
    Delivery (s.push request index w) full (next + 1) := by
  obtain ⟨rfl, before, htagged, hbefore⟩ := h.broadcast.placing placing
  have hlt : index < s.workers.length := (List.getElem?_eq_some_iff.1 worker).1
  have hclosed : s.closed = false := by simp [State.closed, placing]
  refine ⟨⟨?_, ?_, .inr ?_, by simp, by simp, ?_⟩, ?_⟩
  · simp [State.push, h.broadcast.dispatched, Nat.add_assoc]
  · simpa [State.push] using hlt
  · simp [State.push, htagged, hbefore]
  · intro request' index' placing'
    cases placing'
    exact ⟨rfl, before, htagged, hbefore⟩
  · intro j v hv
    have hstill : (s.push request index w).closed = false := by simp [State.closed, State.push]
    rw [hstill]
    simp only [State.push, List.getElem?_set] at hv ⊢
    split_ifs at hv with hj
    · -- the queue that was next: it is given the request that is being placed
      subst hj
      obtain rfl := Option.some.inj hv
      have hserved := h.served worker
      have hold : placed full index index = full := by simp [placed]
      have hnew : placed full (index + 1) index = full + 1 := by simp [placed]
      rw [hclosed, hold, htagged, List.take_left' hbefore] at hserved
      have hall : (before ++ [request]).length = full + 1 := by simp [hbefore]
      rw [hnew, htagged, List.take_of_length_le hall.le]
      exact hserved.push opened request
    · have hsame : placed full (index + 1) j = placed full index j := by
        unfold placed; split_ifs <;> omega
      rw [hsame, ← hclosed]
      exact h.served hv

theorem Delivery.ingestionStep (h : Delivery s full next) (step : IngestionStep s t) :
    ∃ full next, Delivery t full next := by
  cases step with
  | cancel | exhaust | fail | dead =>
    exact ⟨full, next, h.leave rfl (h.broadcast.ended _) (fun _ _ => rfl) fun _ => closed_iff.2 rfl⟩
  | skip ready quiet front bad =>
    have hlength := h.broadcast.ready ready
    refine ⟨full, next, h.leave rfl ?_ (fun _ _ => rfl) ?_⟩
    · exact ⟨h.broadcast.dispatched, h.broadcast.le, h.broadcast.tagged, fun _ => hlength,
        by simp, by simp⟩
    · simp [closed_iff, ready]
  | tag ready quiet front good => exact ⟨full, next, h.tag ready _ _⟩
  | pause ready quiet front =>
    have hlength := h.broadcast.ready ready
    exact ⟨full, next, h.leave rfl (h.broadcast.between hlength _ _ (by simp)) (fun _ _ => rfl)
      (by simp [closed_iff, ready])⟩
  | resume paused quiet due =>
    have hlength := h.broadcast.paused paused
    exact ⟨full, next, h.leave rfl (h.broadcast.between hlength _ _ (by simp)) (fun _ _ => rfl)
      (by simp [closed_iff, paused])⟩
  | finish placing done =>
    obtain ⟨hbroadcast, rfl⟩ := h.broadcast.complete placing done s.ingestion.feed
    refine ⟨full + 1, 0, ⟨hbroadcast, ?_⟩⟩
    intro index w hw
    have hlt : index < s.workers.length := (List.getElem?_eq_some_iff.1 hw).1
    have hsame : placed (full + 1) 0 index = placed full s.workers.length index := by
      simp [placed, hlt]
    rw [hsame]
    exact (h.served hw).mono (by simp [closed_iff, placing])
  | push placing quiet worker opened room => exact ⟨full, next + 1, h.push placing worker opened⟩

theorem Delivery.workerStep (h : Delivery s full next) {index : ℕ} {w after : Worker}
    (worker : s.workers[index]? = some w) (step : w.Step s.now s.signal s.closed after) :
    Delivery (s.setWorker index after) full next where
  broadcast := by
    have hlength : (s.setWorker index after).workers.length = s.workers.length := by
      simp [State.setWorker]
    rw [hlength]
    exact h.broadcast
  served {j v} hv := by
    simp only [State.setWorker, List.getElem?_set] at hv
    split_ifs at hv with hj
    · subst hj
      obtain rfl := Option.some.inj hv
      exact (h.served worker).step step
    · exact h.served hv

theorem Delivery.happens {m : Move} (h : Delivery s full next) (move : Happens s m t) :
    ∃ full next, Delivery t full next := by
  cases move with
  | ingestion step => exact h.ingestionStep step
  | worker worker step => exact ⟨full, next, h.workerStep worker step⟩
  | join =>
    have broadcast := h.broadcast
    exact ⟨full, next, h.leave (by simp) (by simpa) (by simp) (by simp [closed_iff])⟩
  | conclude =>
    have broadcast := h.broadcast
    exact ⟨full, next, h.leave (by simp) (by simpa) (by simp) (by simp [closed_iff])⟩
  | pass | raise => exact ⟨full, next, h.broadcast, h.served⟩

end Delivery

theorem delivery_start (setup : Setup) (signal : Bool) : Delivery (.start setup signal) 0 0 where
  broadcast := broadcast_start setup signal _
  served hw := by
    obtain ⟨agent, -, rfl⟩ := worker_start hw
    exact ⟨fun _ => rfl, by simp, by simp, List.prefix_rfl⟩

/-- How far the broadcast is, and what each worker has of the requests, in any state of any run. -/
theorem delivery_of_run {setup : Setup} {signal : Bool} {moves : List Move} {t : State}
    (run : Run (.start setup signal) moves t) : ∃ full next, Delivery t full next :=
  run.keeps (P := fun t => ∃ full next, Delivery t full next)
    (fun ⟨_, _, h⟩ move => h.happens (happens_of_after move)) ⟨0, 0, delivery_start setup signal⟩

/-! ## Delivery in order -/

/-- Every agent gets the requests in the order of the feed, each once: `count index` of those tagged
so far have been placed for the agent with that index. -/
structure InOrder (setup : Setup) (t : State) (count : ℕ → ℕ) : Prop where
  /-- The requests tagged so far are those for the steps of the feed that were taken. -/
  tagged : ∃ taken, setup.feed = taken ++ t.ingestion.feed ∧
    t.ingestion.tagged = requests setup.ids taken
  bound : ∀ index < t.workers.length, count index ≤ t.ingestion.tagged.length
  /-- The requests handed to the agent and those on the queue are the ones placed. -/
  queued : ∀ {index : ℕ} {w : Worker}, t.workers[index]? = some w → w.released = false →
    w.calls.map (·.request) ++ w.queue = t.ingestion.tagged.take (count index)
  /-- Those handed to the agent stay a part in front when the queue has been given up. -/
  called : ∀ {index : ℕ} {w : Worker}, t.workers[index]? = some w →
    w.calls.map (·.request) <+: t.ingestion.tagged.take (count index)
  /-- With identifiers that do not repeat no request is called twice. -/
  once : Function.Injective setup.ids → ∀ w ∈ t.workers, (w.calls.map (·.request)).Nodup
  /-- All calls but one at most have come to an outcome, and been counted. -/
  single : ∀ w ∈ t.workers, w.calls.length = w.counts.total + w.unsettled ∧ w.unsettled ≤ 1
  /-- The one in flight is the last. -/
  last : ∀ w ∈ t.workers, ∀ {request finish outcome},
    w.activity = .calling request finish outcome →
      (w.calls.map (·.request)).getLast? = some request
  anti : ∀ {i j : ℕ}, i ≤ j → j < t.workers.length → count j ≤ count i
  near : ∀ {i j : ℕ}, i < t.workers.length → j < t.workers.length → count i ≤ count j + 1
  ahead : ∀ index < t.workers.length, t.ingestion.tagged.length ≤ count index + 1
  dispatched : t.ingestion.totals.dispatched = ∑ index ∈ Finset.range t.workers.length, count index

theorem unsettled_le (w : Worker) : w.unsettled ≤ 1 := by
  unfold Worker.unsettled
  split <;> omega

/-- In any state of any run, whatever the order of the steps, the faults and the moment of a signal,
every agent has got the requests in the order of the feed, each once. -/
theorem delivered_in_order {setup : Setup} {signal : Bool} {s t : State} {moves : List Move}
    (launched : launch setup signal = .ok s) (run : Run s moves t) :
    t.workers.length = setup.agents.length ∧ ∃ count, InOrder setup t count := by
  obtain ⟨rfl, -, -⟩ := launch_eq_ok launched
  obtain ⟨taken, intake⟩ := intake_of_run run
  obtain ⟨full, next, delivery⟩ := delivery_of_run run
  have crew := crew_of_run run
  have broadcast := delivery.broadcast
  refine ⟨crew.length, placed full next, ?_⟩
  have called : ∀ {index : ℕ} {w : Worker}, t.workers[index]? = some w →
      w.calls.map (·.request) <+: t.ingestion.tagged.take (placed full next index) :=
    fun hw => (delivery.served hw).called
  constructor
  case tagged => exact ⟨taken, intake.feed, intake.tagged⟩
  case bound =>
    intro index hindex
    rcases broadcast.tagged with ⟨hlength, rfl⟩ | hlength
    · rw [placed_zero, hlength]
    · rw [hlength]; exact placed_le full next index
  case queued => exact fun hw => (delivery.served hw).queued
  case called => exact called
  case once =>
    intro distinct w hw
    obtain ⟨index, hindex⟩ := List.mem_iff_getElem?.1 hw
    have hnodup : t.ingestion.tagged.Nodup := by
      rw [intake.tagged]; exact nodup_requests distinct taken
    exact (hnodup.sublist (List.take_sublist _ _)).sublist (called hindex).sublist
  case single => exact fun w hw => ⟨(crew.account w hw).length_calls, unsettled_le w⟩
  case last => exact fun w hw => (crew.account w hw).getLast?_calls
  case anti => exact fun hij _ => placed_anti full next hij
  case near =>
    intro i j _ _
    have := placed_le full next i
    unfold placed at this ⊢
    omega
  case ahead =>
    intro index _
    rcases broadcast.tagged with ⟨hlength, -⟩ | hlength <;> unfold placed <;> omega
  case dispatched => rw [broadcast.dispatched, sum_placed full broadcast.le]

/-- Two agents, one of them silent, and a feed that fails after two events. -/
def failingSetup : Setup where
  name := defaultName
  capacity := 1
  limit := 50
  agents := [.scripted "a" [], .scripted "b" [⟨0, .silence⟩]]
  feed := [.item (.event plainEvent), .item (.event plainEvent), .fail (.closed "end")]
  ids := toString

/-- The relay when the second request is on the first queue and not yet on the second. -/
def betweenState : State :=
  (State.start failingSetup false).runFrom none 8

theorem delivered_in_order_failingSetup :
    launch failingSetup false = .ok (.start failingSetup false) ∧
    (∃ moves, Run (.start failingSetup false) moves betweenState) ∧
    betweenState.ingestion.totals.dispatched = 3 ∧
    betweenState.workers.map (fun w => (w.calls.length, w.queue.length)) = [(1, 1), (0, 1)] ∧
    ∃ count, InOrder failingSetup betweenState count := by
  obtain ⟨moves, run, -⟩ := run_runFrom none 8 (.start failingSetup false)
  have launched : launch failingSetup false = .ok (.start failingSetup false) := rfl
  exact ⟨launched, ⟨moves, run⟩, by decide +kernel, by decide +kernel,
    (delivered_in_order launched run).2⟩

end TxRelay.Relay
