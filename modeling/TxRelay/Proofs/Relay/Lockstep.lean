import TxRelay.Proofs.Relay.Moves

/-!
# Relays in lockstep

Two relays whose agents take equally long over their calls do the same, whatever the agents answer and
whatever identifiers the requests bear: a step that a task can take in one it can take in the other,
and the two remain alike. Alike they are in all that decides what happens next: the moments, the
signal, the feed, what ingestion and the workers are about, the requests on the queues and in the calls
but for their identifiers, and the ends of tasks and the result but for what is counted.

Results:
* `alike_start`: relays that are set up alike start alike.
* `Alike.step`: a step of a task.
* `Alike.run`: a run, in any order of the steps.
* `Alike.carriedOut`: the run that is carried out.
-/

namespace TxRelay

/-- Requests for one message under one number, with identifiers from two supplies. -/
inductive Request.Twin (ids ids' : ℕ → String) : Request → Request → Prop
  | tagged (number : ℕ) (message : Message) :
    Twin ids ids' (.tag ids number message) (.tag ids' number message)

/-- Agents at one address whose calls last equally long and break nobody down. -/
structure Agent.Twin (ids ids' : ℕ → String) (limit : ℕ) (a a' : Agent) : Prop where
  address : a.address = a'.address
  steady : a.Steady limit
  steady' : a'.Steady limit
  duration : ∀ index {r r'}, Request.Twin ids ids' r r' →
    (a.respond index r).duration limit = (a'.respond index r').duration limit

namespace Worker

variable {ids ids' : ℕ → String} {w w' : Worker} {now : ℕ}

/-- Calls made at one moment. -/
structure Call.Twin (ids ids' : ℕ → String) (c c' : Call) : Prop where
  request : Request.Twin ids ids' c.request c'.request
  start : c.start = c'.start

/-- A worker is about the same; what its call comes to may differ. -/
inductive Activity.Twin (ids ids' : ℕ → String) : Activity → Activity → Prop
  | idle : Twin ids ids' .idle .idle
  | waiting : Twin ids ids' .waiting .waiting
  | calling {r r' : Request} {finish : ℕ} {o o' : Outcome} (request : Request.Twin ids ids' r r')
      (goesOn : mark? o ≠ none) (goesOn' : mark? o' ≠ none) :
      Twin ids ids' (.calling r finish o) (.calling r' finish o')
  | stopped (cancelled : Bool) : Twin ids ids' (.stopped cancelled) (.stopped cancelled)

/-- Workers that are alike. -/
structure Twin (ids ids' : ℕ → String) (w w' : Worker) : Prop where
  limit : w.limit = w'.limit
  agent : Agent.Twin ids ids' w.limit w.agent w'.agent
  activity : Activity.Twin ids ids' w.activity w'.activity
  queue : List.Forall₂ (Request.Twin ids ids') w.queue w'.queue
  calls : List.Forall₂ (Call.Twin ids ids') w.calls w'.calls

namespace Twin

theorem setActivity (twin : Twin ids ids' w w') {a a' : Activity}
    (activity : Activity.Twin ids ids' a a') (counts counts' : Counts) (log log' : List Record) :
    Twin ids ids' { w with activity := a, counts := counts, log := log }
      { w' with activity := a', counts := counts', log := log' } :=
  ⟨twin.limit, twin.agent, activity, twin.queue, twin.calls⟩

theorem stop (twin : Twin ids ids' w w') (cancelled : Bool) :
    Twin ids ids' (w.stop cancelled) (w'.stop cancelled) :=
  ⟨twin.limit, twin.agent, .stopped cancelled, .nil, twin.calls⟩

theorem call (twin : Twin ids ids' w w') {r r' : Request} (request : Request.Twin ids ids' r r')
    {rest rest' : List Request} (queue : List.Forall₂ (Request.Twin ids ids') rest rest') (now : ℕ) :
    Twin ids ids' (w.call now r rest) (w'.call now r' rest') := by
  -- both agents have been called as often, so this is the same call of theirs
  have duration := twin.agent.duration w.calls.length request
  rw [twin.calls.length_eq] at duration
  refine ⟨twin.limit, twin.agent, ?_, queue, List.rel_append twin.calls (.cons ⟨request, rfl⟩ .nil)⟩
  rw [call_activity, call_activity, twin.calls.length_eq, duration, ← twin.limit]
  exact .calling request (mark_of_steady twin.agent.steady _ _) (mark_of_steady twin.agent.steady' _ _)

/-- Workers that are alike step alike. -/
theorem step (twin : Twin ids ids' w w') (now : ℕ) (signal closed : Bool) :
    Option.Rel (Twin ids ids') (w.step now signal closed) (w'.step now signal closed) := by
  have activity := twin.activity
  unfold Worker.step
  generalize w.activity = a, w'.activity = a' at activity
  cases activity with
  | idle => exact .some (twin.setActivity .waiting _ _ _ _)
  | waiting =>
    cases signal with
    | true => exact .some (twin.stop true)
    | false =>
      have queue := twin.queue
      generalize w.queue = q, w'.queue = q' at queue
      cases queue with
      | nil =>
        cases closed with
        | true => exact .some (twin.stop false)
        | false => exact .none
      | cons request rest => exact .some (twin.call request rest now)
  | @calling r r' finish o o' request goesOn goesOn' =>
    -- whatever the calls come to, both workers go on, at the same moment
    dsimp only
    split_ifs
    · rw [conclude_of_mark goesOn, conclude_of_mark goesOn']
      exact .some (twin.setActivity .waiting _ _ _ _)
    · exact .none
  | stopped => exact .none

theorem released_eq (twin : Twin ids ids' w w') : w.released = w'.released := by
  have activity := twin.activity
  unfold released
  generalize w.activity = a, w'.activity = a' at activity
  cases activity <;> rfl

theorem deadline_eq (twin : Twin ids ids' w w') : w.deadline? = w'.deadline? := by
  have activity := twin.activity
  unfold deadline?
  generalize w.activity = a, w'.activity = a' at activity
  cases activity <;> rfl

theorem work_eq (twin : Twin ids ids' w w') : w.work = w'.work := by
  have activity := twin.activity
  unfold work
  rw [twin.queue.length_eq]
  generalize w.activity = a, w'.activity = a' at activity
  cases activity <;> rfl

end Twin

end Worker

namespace Relay

/-! ## Relays that are alike -/

/-- Results that are both good or the same error. -/
inductive ResultTwin {α : Type} : Except RunError α → Except RunError α → Prop
  | ok (a b : α) : ResultTwin (.ok a) (.ok b)
  | error (e : RunError) : ResultTwin (.error e) (.error e)

/-- Ends of one task with such results. -/
inductive TaskEnd.Twin : TaskEnd → TaskEnd → Prop
  | ingestion {r r'} (result : ResultTwin r r') : Twin (.ingestion r) (.ingestion r')
  | worker (index : ℕ) {r r'} (result : ResultTwin r r') : Twin (.worker index r) (.worker index r')

/-- Ingestion is about the same. -/
inductive Activity.Twin (ids ids' : ℕ → String) : Activity → Activity → Prop
  | pulling : Twin ids ids' .pulling .pulling
  | pausing (finish : ℕ) : Twin ids ids' (.pausing finish) (.pausing finish)
  | placing {r r' : Request} (request : Request.Twin ids ids' r r') (next : ℕ) :
    Twin ids ids' (.placing r next) (.placing r' next)
  | ended : Twin ids ids' .ended .ended

structure Ingestion.Twin (ids ids' : ℕ → String) (i i' : Ingestion) : Prop where
  activity : Activity.Twin ids ids' i.activity i'.activity
  feed : i.feed = i'.feed
  tagged : i.tagged.length = i'.tagged.length

structure Supervisor.Twin (s s' : Supervisor) : Prop where
  joined : s.joined = s'.joined
  error : s.error = s'.error
  result : Option.Rel ResultTwin s.result s'.result

/-- Relays that are alike. -/
structure State.Alike (s s' : State) : Prop where
  room : s.setup.room = s'.setup.room
  now : s.now = s'.now
  signal : s.signal = s'.signal
  ingestion : Ingestion.Twin s.setup.ids s'.setup.ids s.ingestion s'.ingestion
  workers : List.Forall₂ (Worker.Twin s.setup.ids s'.setup.ids) s.workers s'.workers
  ends : List.Forall₂ TaskEnd.Twin s.ends s'.ends
  supervisor : Supervisor.Twin s.supervisor s'.supervisor

section Lists

variable {α β : Type} {R : α → β → Prop} {as : List α} {bs : List β}

theorem rel_getElem? (h : List.Forall₂ R as bs) (n : ℕ) : Option.Rel R as[n]? bs[n]? := by
  induction h generalizing n with
  | nil => exact .none
  | cons head _ ih =>
    cases n with
    | zero => exact .some head
    | succ n => simpa using ih n

theorem forall₂_set (h : List.Forall₂ R as bs) (n : ℕ) {a : α} {b : β} (same : R a b) :
    List.Forall₂ R (as.set n a) (bs.set n b) := by
  induction h generalizing n with
  | nil => exact .nil
  | cons head tail ih =>
    cases n with
    | zero => exact .cons same tail
    | succ n => exact .cons head (ih n)

theorem map_eq_of_forall₂ {γ : Type} (h : List.Forall₂ R as bs) {f : α → γ} {g : β → γ}
    (same : ∀ {a b}, R a b → f a = g b) : as.map f = bs.map g := by
  induction h with
  | nil => rfl
  | cons head _ ih => rw [List.map_cons, List.map_cons, same head, ih]

end Lists

/-- Workers that are alike end alike. -/
theorem ends_twin {ids ids' : ℕ → String} {w w' : Worker} (twin : Worker.Twin ids ids' w w')
    (index : ℕ) : List.Forall₂ TaskEnd.Twin (workerEnds index w) (workerEnds index w') := by
  have activity := twin.activity
  unfold workerEnds workerEnd?
  generalize w.activity = a, w'.activity = a' at activity
  cases activity with
  | idle | waiting | calling => exact .nil
  | stopped cancelled =>
    cases cancelled with
    | false => exact .cons (.worker index (.ok _ _)) .nil
    | true => exact .cons (.worker index (.error _)) .nil

namespace State.Alike

variable {s s' : State}

/-! ### Ingestion -/

theorem record (alike : s.Alike s') (r r' : Record) : (s.record r).Alike (s'.record r') :=
  ⟨alike.room, alike.now, alike.signal, alike.ingestion, alike.workers, alike.ends,
    alike.supervisor⟩

theorem endIngestion (alike : s.Alike s') {r r' : Except RunError Totals}
    (result : ResultTwin r r') : (s.endIngestion r).Alike (s'.endIngestion r') :=
  ⟨alike.room, alike.now, alike.signal, ⟨.ended, alike.ingestion.feed, alike.ingestion.tagged⟩,
    alike.workers, List.rel_append alike.ends (.cons (.ingestion result) .nil), alike.supervisor⟩

theorem goOn (alike : s.Alike s') {a a' : Activity}
    (activity : Activity.Twin s.setup.ids s'.setup.ids a a') (feed : List Feed.Step) :
    (s.goOn a feed).Alike (s'.goOn a' feed) :=
  ⟨alike.room, alike.now, alike.signal, ⟨activity, rfl, alike.ingestion.tagged⟩, alike.workers,
    alike.ends, alike.supervisor⟩

theorem skip (alike : s.Alike s') (error error' : ConversionError) :
    (s.skip error).Alike (s'.skip error') :=
  ⟨alike.room, alike.now, alike.signal,
    ⟨alike.ingestion.activity, alike.ingestion.feed, alike.ingestion.tagged⟩, alike.workers,
    alike.ends, alike.supervisor⟩

theorem tag (alike : s.Alike s') (message : Message) : (s.tag message).Alike (s'.tag message) := by
  have tagged := alike.ingestion.tagged
  refine ⟨alike.room, alike.now, alike.signal, ⟨?_, alike.ingestion.feed, ?_⟩, alike.workers,
    alike.ends, alike.supervisor⟩
  · rw [tag_activity, tag_activity, tagged]
    exact .placing (.tagged _ message) 0
  · simp [State.tag, State.record, tagged]

theorem take (alike : s.Alike s') (item : Feed.Item) (rest : List Feed.Step) :
    (s.take item rest).Alike (s'.take item rest) := by
  have taken := alike.goOn .pulling rest
  unfold State.take
  cases item.toMessage with
  | error error => exact taken.skip error error
  | ok message => exact taken.tag message

theorem pull (alike : s.Alike s') : Option.Rel State.Alike s.pull s'.pull := by
  unfold State.pull
  rw [← alike.ingestion.feed]
  split
  · exact .some ((alike.record _ _).endIngestion (.ok _ _))
  · exact .some (alike.take _ _)
  · rw [← alike.now]
    exact .some (alike.goOn (.pausing _) _)
  · exact .some (((alike.goOn .pulling _).record _ _).endIngestion (.error _))
  · exact .none

theorem push (alike : s.Alike s') {r r' : Request}
    (request : Request.Twin s.setup.ids s'.setup.ids r r') (index : ℕ) {w w' : Worker}
    (worker : Worker.Twin s.setup.ids s'.setup.ids w w') :
    (s.push r index w).Alike (s'.push r' index w') := by
  refine ⟨alike.room, alike.now, alike.signal,
    ⟨.placing request (index + 1), alike.ingestion.feed, alike.ingestion.tagged⟩, ?_, alike.ends,
    alike.supervisor⟩
  refine forall₂_set alike.workers index ⟨worker.limit, worker.agent, worker.activity, ?_, worker.calls⟩
  exact List.rel_append worker.queue (.cons request .nil)

theorem place (alike : s.Alike s') {r r' : Request}
    (request : Request.Twin s.setup.ids s'.setup.ids r r') (index : ℕ) {w w' : Worker}
    (worker : Worker.Twin s.setup.ids s'.setup.ids w w') :
    Option.Rel State.Alike (s.place r index w) (s'.place r' index w') := by
  unfold State.place
  rw [← worker.released_eq, ← worker.queue.length_eq, ← alike.room, ← worker.agent.address]
  split_ifs
  · exact .some (alike.endIngestion (.error _))
  · exact .some (alike.push request index worker)
  · exact .none

theorem stepIngestion (alike : s.Alike s') :
    Option.Rel State.Alike s.stepIngestion s'.stepIngestion := by
  have activity := alike.ingestion.activity
  have cancel : Option.Rel State.Alike (some (s.endIngestion (.error .cancelled)))
      (some (s'.endIngestion (.error .cancelled))) := .some (alike.endIngestion (.error _))
  unfold State.stepIngestion
  rw [← alike.signal, ← alike.now, ← alike.ingestion.feed]
  generalize s.ingestion.activity = a, s'.ingestion.activity = a' at activity
  cases activity with
  | pulling =>
    dsimp only
    split_ifs
    · exact cancel
    · exact alike.pull
  | pausing finish =>
    dsimp only
    split_ifs
    · exact cancel
    · exact .some (alike.goOn .pulling _)
    · exact .none
  | placing request next =>
    dsimp only
    have worker := rel_getElem? alike.workers next
    generalize s.workers[next]? = w, s'.workers[next]? = w' at worker
    cases worker with
    | none => exact .some (alike.goOn .pulling _)
    | some worker =>
      dsimp only
      split_ifs
      · exact cancel
      · exact alike.place request next worker
  | ended => exact .none

/-! ### Workers -/

theorem closed_eq (alike : s.Alike s') : s.closed = s'.closed := by
  have activity := alike.ingestion.activity
  unfold State.closed
  generalize s.ingestion.activity = a, s'.ingestion.activity = a' at activity
  cases activity <;> rfl

theorem setWorker (alike : s.Alike s') (index : ℕ) {w w' : Worker}
    (worker : Worker.Twin s.setup.ids s'.setup.ids w w') :
    (s.setWorker index w).Alike (s'.setWorker index w') :=
  ⟨alike.room, alike.now, alike.signal, alike.ingestion, forall₂_set alike.workers index worker,
    List.rel_append alike.ends (ends_twin worker index), alike.supervisor⟩

theorem stepWorker (alike : s.Alike s') (index : ℕ) :
    Option.Rel State.Alike (s.stepWorker index) (s'.stepWorker index) := by
  have worker := rel_getElem? alike.workers index
  unfold State.stepWorker
  generalize s.workers[index]? = w, s'.workers[index]? = w' at worker
  cases worker with
  | none => exact .none
  | @some w w' worker =>
    have next := worker.step s.now s.signal s.closed
    simp only [Option.bind_eq_bind, Option.bind_some]
    rw [← alike.now, ← alike.signal, ← alike.closed_eq]
    generalize w.step s.now s.signal s.closed = n, w'.step s.now s.signal s.closed = n' at next
    cases next with
    | none => exact .none
    | some next => exact .some (alike.setWorker index next)

/-! ### The supervisor -/

theorem hear (alike : s.Alike s') (error : RunError) : (s.hear error).Alike (s'.hear error) := by
  obtain ⟨log, hears⟩ := hear_eq s error
  obtain ⟨log', hears'⟩ := hear_eq s' error
  rw [hears, hears', ← alike.supervisor.error, ← alike.signal]
  exact ⟨alike.room, alike.now, rfl, alike.ingestion, alike.workers, alike.ends,
    ⟨alike.supervisor.joined, rfl, alike.supervisor.result⟩⟩

theorem join (alike : s.Alike s') {e e' : TaskEnd} (twin : TaskEnd.Twin e e') :
    (s.join e).Alike (s'.join e') := by
  cases twin with
  | ingestion result | worker index result =>
    cases result with
    | ok =>
      exact ⟨alike.room, alike.now, alike.signal, alike.ingestion, alike.workers, alike.ends,
        ⟨alike.supervisor.joined, alike.supervisor.error, alike.supervisor.result⟩⟩
    | error error => exact alike.hear error

theorem verdict_twin (alike : s.Alike s') :
    ResultTwin s.supervisor.verdict s'.supervisor.verdict := by
  unfold Supervisor.verdict
  rw [← alike.supervisor.error]
  cases s.supervisor.error with
  | some error => exact .error error
  | none => exact .ok _ _

theorem conclude (alike : s.Alike s') : s.conclude.Alike s'.conclude := by
  obtain ⟨log, concludes⟩ := conclude_eq s
  obtain ⟨log', concludes'⟩ := conclude_eq s'
  rw [concludes, concludes']
  exact ⟨alike.room, alike.now, rfl, alike.ingestion, alike.workers, alike.ends,
    ⟨alike.supervisor.joined, alike.supervisor.error, .some alike.verdict_twin⟩⟩

theorem stepSupervisor (alike : s.Alike s') :
    Option.Rel State.Alike s.stepSupervisor s'.stepSupervisor := by
  have result := alike.supervisor.result
  have ends := alike.ends
  unfold State.stepSupervisor State.taskCount
  rw [← alike.supervisor.joined, ← alike.workers.length_eq]
  generalize s.supervisor.result = r, s'.supervisor.result = r' at result
  cases result with
  | some => exact .none
  | none =>
    dsimp only
    generalize s.ends = es, s'.ends = es' at ends
    cases ends with
    | nil =>
      dsimp only
      split_ifs
      · exact .some alike.conclude
      · exact .none
    | @cons e e' rest rest' same ends =>
      have heard : State.Alike
          { s with ends := rest, supervisor.joined := s.supervisor.joined + 1 }
          { s' with ends := rest', supervisor.joined := s.supervisor.joined + 1 } :=
        ⟨alike.room, alike.now, alike.signal, alike.ingestion, alike.workers, ends,
          ⟨rfl, alike.supervisor.error, alike.supervisor.result⟩⟩
      exact .some (heard.join same)

/-- Relays that are alike step alike. -/
theorem step (alike : s.Alike s') (task : Task) :
    Option.Rel State.Alike (s.step task) (s'.step task) := by
  cases task with
  | ingestion => exact alike.stepIngestion
  | worker index => exact alike.stepWorker index
  | supervisor => exact alike.stepSupervisor

/-! ### Runs -/

theorem after (alike : s.Alike s') (m : Move) : Option.Rel State.Alike (s.after m) (s'.after m) := by
  cases m with
  | task task => exact alike.step task
  | pass moment =>
    simp only [State.after, ← alike.now]
    split_ifs
    · exact .some ⟨alike.room, rfl, alike.signal, alike.ingestion, alike.workers, alike.ends,
        alike.supervisor⟩
    · exact .none
  | raise =>
    exact .some ⟨alike.room, alike.now, rfl, alike.ingestion, alike.workers, alike.ends,
      alike.supervisor⟩

/-- What one relay can do, the other can do as well, and they remain alike. -/
theorem run (alike : s.Alike s') {moves : List Move} {t : State} (run : Run s moves t) :
    ∃ t', Run s' moves t' ∧ t.Alike t' := by
  induction run with
  | start => exact ⟨s', .start, alike⟩
  | @next moves t m u run move ih =>
    obtain ⟨t', run', alike⟩ := ih
    have moved := alike.after m
    rw [move] at moved
    generalize after' : t'.after m = u' at moved
    cases moved with
    | some alike => exact ⟨_, run'.next after', alike⟩

theorem tasks_eq (alike : s.Alike s') : s.tasks = s'.tasks := by
  rw [State.tasks, State.tasks, alike.workers.length_eq]

theorem move? (alike : s.Alike s') : Option.Rel State.Alike s.move? s'.move? := by
  rw [State.move?, State.move?, ← alike.tasks_eq]
  induction s.tasks with
  | nil => exact .none
  | cons task rest ih =>
    have step := alike.step task
    rw [List.findSome?_cons, List.findSome?_cons]
    generalize s.step task = t, s'.step task = t' at step
    cases step with
    | some alike => exact .some alike
    | none => exact ih

theorem feedDeadline_eq (alike : s.Alike s') : s.feedDeadline? = s'.feedDeadline? := by
  have activity := alike.ingestion.activity
  unfold State.feedDeadline?
  generalize s.ingestion.activity = a, s'.ingestion.activity = a' at activity
  cases activity <;> rfl

theorem nextMoment_eq (alike : s.Alike s') (signalAt : Option ℕ) :
    s.nextMoment? signalAt = s'.nextMoment? signalAt := by
  have deadlines : s.workers.map Worker.deadline? = s'.workers.map Worker.deadline? :=
    map_eq_of_forall₂ alike.workers fun worker => worker.deadline_eq
  rw [State.nextMoment?, State.nextMoment?, alike.now, alike.feedDeadline_eq, deadlines]

theorem passTo (alike : s.Alike s') (signalAt : Option ℕ) (moment : ℕ) :
    (s.passTo signalAt moment).Alike (s'.passTo signalAt moment) :=
  ⟨alike.room, rfl, congrArg (· || _) alike.signal, alike.ingestion, alike.workers, alike.ends,
    alike.supervisor⟩

theorem isSome_result (alike : s.Alike s') :
    s.supervisor.result.isSome = s'.supervisor.result.isSome := by
  have result := alike.supervisor.result
  generalize s.supervisor.result = r, s'.supervisor.result = r' at result
  cases result <;> rfl

/-- Relays that are alike are alike after the run that is carried out. -/
theorem runFrom (alike : s.Alike s') (signalAt : Option ℕ) (fuel : ℕ) :
    (s.runFrom signalAt fuel).Alike (s'.runFrom signalAt fuel) := by
  induction fuel generalizing s s' with
  | zero => exact alike
  | succ fuel ih =>
    have move := alike.move?
    rw [State.runFrom, State.runFrom, ← alike.isSome_result, ← alike.nextMoment_eq]
    generalize s.move? = t, s'.move? = t' at move
    cases move with
    | some alike => exact ih alike
    | none =>
      dsimp only
      split_ifs
      · exact alike
      · cases s.nextMoment? signalAt with
        | none => exact alike
        | some moment => exact ih (alike.passTo signalAt moment)

/-- As many steps are left to both. -/
theorem work_eq (alike : s.Alike s') : s.work = s'.work := by
  have ingestion : s.ingestion.work s.workers.length = s'.ingestion.work s.workers.length := by
    have activity := alike.ingestion.activity
    unfold Ingestion.work
    rw [alike.ingestion.feed]
    generalize s.ingestion.activity = a, s'.ingestion.activity = a' at activity
    cases activity <;> rfl
  have workers : s.workers.foldr (fun w n => w.work + n) 0 =
      s'.workers.foldr (fun w n => w.work + n) 0 := by
    have summed (workers : List Worker) :
        workers.foldr (fun w n => w.work + n) 0 = (workers.map Worker.work).sum := by
      rw [List.sum, List.foldr_map]
    rw [summed, summed, map_eq_of_forall₂ alike.workers fun worker => worker.work_eq]
  rw [State.work, State.work, ingestion, workers, Supervisor.work, Supervisor.work, State.taskCount,
    State.taskCount, alike.isSome_result, alike.workers.length_eq, alike.supervisor.joined]

theorem carriedOut (alike : s.Alike s') (signalAt : Option ℕ) :
    (s.run signalAt).Alike (s'.run signalAt) := by
  rw [State.run, State.run, ← alike.work_eq]
  exact alike.runFrom signalAt _

end State.Alike

/-- Relays that are set up alike start alike. -/
theorem alike_start {setup setup' : Setup} (capacity : setup.capacity = setup'.capacity)
    (limit : setup.limit = setup'.limit) (feed : setup.feed = setup'.feed)
    (agents : List.Forall₂ (Agent.Twin setup.ids setup'.ids setup.limit) setup.agents setup'.agents)
    (signal : Bool) : (State.start setup signal).Alike (State.start setup' signal) where
  room := congrArg (max · 1) capacity
  now := rfl
  signal := rfl
  ingestion := ⟨.pulling, feed, rfl⟩
  workers := by
    refine List.forall₂_iff_get.2 ⟨?_, fun n lt lt' => ?_⟩
    · rw [start_workers, start_workers, agents.length_eq]
    · have agent := (List.forall₂_iff_get.1 agents).2 n
        (by simpa [State.start, freshWorkers] using lt) (by simpa [State.start, freshWorkers] using lt')
      simp only [State.start, freshWorkers, List.get_eq_getElem, List.getElem_mapIdx]
      exact ⟨limit, agent, .idle, .nil, .nil⟩
  ends := .nil
  supervisor := ⟨rfl, rfl, .none⟩

/-- Relays that are alike have made as many calls to each agent. -/
theorem State.Alike.counts_eq {s s' : State} (alike : s.Alike s') :
    s.workers.map (·.calls.length) = s'.workers.map (·.calls.length) :=
  map_eq_of_forall₂ alike.workers fun worker => worker.calls.length_eq

end Relay

end TxRelay
