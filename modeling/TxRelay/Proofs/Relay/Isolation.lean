import TxRelay.Proofs.Relay.Punctual

/-!
# Agents do not see each other

The other agents can delay a request to an agent, since ingestion waits for room on every queue, but
they change neither what the agent is asked nor what its calls come to. In two calm runs that differ
in the other agents only, an agent gets the same requests, counts and logs the same, and the totals
are the same. When the calls of the others also take the same time, its calls begin at the same times.

Results:
* `RanOut.shows`: what a calm run that has ended shows of an agent.
* `Alike.worker_eq`: that does not depend on the other agents.
* `isolated`: two calm runs that differ in the other agents only look the same to an agent.
-/

namespace TxRelay

namespace Worker

/-- What is made of the requests of calls does not depend on when the calls were made. -/
theorem mapIdx_of_requests {α : Type} {calls others : List Call} (f : ℕ → Call → α)
    (requests : calls.map (·.request) = others.map (·.request))
    (only : ∀ index call other, call.request = other.request → f index call = f index other) :
    calls.mapIdx f = others.mapIdx f := by
  apply List.ext_getElem
  · simpa using congrArg List.length requests
  · intro n h₁ h₂
    simp only [List.length_mapIdx] at h₁ h₂
    have request := congrArg (fun list => list[n]?) requests
    simp only [List.getElem?_map, List.getElem?_eq_getElem h₁, List.getElem?_eq_getElem h₂,
      Option.map_some, Option.some.injEq] at request
    rw [List.getElem_mapIdx, List.getElem_mapIdx]
    exact only n _ _ request

theorem calls_ext {calls others : List Call}
    (requests : calls.map (·.request) = others.map (·.request))
    (starts : calls.map (·.start) = others.map (·.start)) : calls = others := by
  apply List.ext_getElem?
  intro n
  have request := congrArg (·[n]?) requests
  have start := congrArg (·[n]?) starts
  simp only [List.getElem?_map] at request start
  cases hcall : calls[n]? with
  | none => cases hother : others[n]? <;> simp_all
  | some call =>
    cases hother : others[n]? with
    | none => simp_all
    | some other =>
      simp only [hcall, hother, Option.map_some, Option.some.injEq] at request start ⊢
      cases call
      cases other
      simp_all

/-- Workers with the same agent that have stopped with calls for the same requests have counted and
logged the same. -/
theorem Account.stopped_eq {w v : Worker} {cancelled : Bool} (account : w.Account)
    (other : v.Account) (stopped : w.activity = .stopped cancelled)
    (stopped' : v.activity = .stopped cancelled) (agent : w.agent = v.agent)
    (limit : w.limit = v.limit)
    (requests : w.calls.map (·.request) = v.calls.map (·.request)) :
    w.counts = v.counts ∧ w.log = v.log := by
  have settled : w.settled = w.calls := by simp [Worker.settled, stopped]
  have settled' : v.settled = v.calls := by simp [Worker.settled, stopped']
  have length : w.calls.length = v.calls.length := by
    simpa using congrArg List.length requests
  have outcomeOf : w.outcomeOf = v.outcomeOf := by
    funext index call
    rw [Worker.outcomeOf, Worker.outcomeOf, agent, limit]
  have outcomes : w.outcomes = v.outcomes := by
    rw [Worker.outcomes, Worker.outcomes, settled, settled', outcomeOf]
    refine mapIdx_of_requests _ requests fun index call other same => ?_
    rw [Worker.outcomeOf, Worker.outcomeOf, same]
  have records : w.callRecords = v.callRecords := by
    rw [Worker.callRecords, Worker.callRecords, settled, settled', outcomeOf]
    refine congrArg List.flatten (mapIdx_of_requests _ requests fun index call other same => ?_)
    rw [Worker.outcomeOf, Worker.outcomeOf, same]
  have counts : w.counts = v.counts := by rw [account.counts, other.counts, length, outcomes]
  refine ⟨counts, ?_⟩
  rw [account.log, other.log, Worker.story, Worker.story, stopped, stopped', records, counts]

end Worker

namespace Relay

variable {setup other : Setup} {moves more : List Move} {t u : State} {index : ℕ}

/-- The workers keep their places. -/
theorem index_of_run {signal : Bool} (run : Run (.start setup signal) moves t) {w : Worker}
    (worker : t.workers[index]? = some w) : w.index = index := by
  have replaced {s : State} (h : ∀ {i : ℕ} {w : Worker}, s.workers[i]? = some w → w.index = i)
      {place i : ℕ} {old next w : Worker} (hold : s.workers[place]? = some old)
      (hw : (s.workers.set place next)[i]? = some w) (same : next.index = old.index) :
      w.index = i := by
    rw [List.getElem?_set] at hw
    split_ifs at hw with hi
    · rw [← Option.some.inj hw, same, h hold, hi]
    · exact h hw
  refine run.keeps (P := fun t => ∀ {i : ℕ} {w : Worker}, t.workers[i]? = some w → w.index = i)
    ?_ ?_ worker
  · intro s m t h move i w hw
    cases happens_of_after move with
    | ingestion step =>
      cases step with
      | push placing quiet worker opened room => exact replaced h worker hw rfl
      | cancel | exhaust | skip | tag | pause | fail | resume | finish | dead => exact h hw
    | worker worker step =>
      refine replaced h worker hw ?_
      cases step with
      | begin | cancel | call | drained => rfl
      | conclude => unfold Worker.conclude; split <;> rfl
    | join => exact h (by simpa using hw)
    | conclude => exact h (by simpa using hw)
    | pass | raise => exact h hw
  · intro i w hw
    obtain ⟨agent, -, rfl⟩ := worker_start hw
    rfl

/-! ## What a run shows of an agent -/

/-- What is to be seen of an agent's part in a run, and of its totals. -/
structure View where
  requests : List Request
  log : List Log.Entry
  stats : Worker.Stats
  totals : Totals

/-- A run that has ended well shows this of an agent. -/
structure Shows (t : State) (index : ℕ) (view : View) : Prop where
  worker : ∃ w, t.workers[index]? = some w ∧ w.calls.map (·.request) = view.requests ∧
    w.entries = view.log
  summary : ∃ summary, t.supervisor.result = some (.ok summary) ∧
    summary.workers[index]? = some view.stats ∧ summary.totals = view.totals

/-- Two relays differ in the other agents only. -/
structure Alike (setup other : Setup) (index : ℕ) : Prop where
  feed : setup.feed = other.feed
  capacity : setup.capacity = other.capacity
  limit : setup.limit = other.limit
  ids : setup.ids = other.ids
  agents : setup.agents.length = other.agents.length
  agent : setup.agents[index]? = other.agents[index]?

/-- A run of a relay has ended, and nobody stopped it. -/
structure RanOut (setup : Setup) (t : State) : Prop where
  run : ∃ moves, Run (.start setup false) moves t ∧ .raise ∉ moves
  ended : t.supervisor.result.isSome = true

/-- The totals of a run that has taken the whole feed. -/
def Setup.totals (setup : Setup) : Totals :=
  ⟨(Feed.items setup.feed).length, Feed.unconverted setup.feed,
    setup.agents.length * (Feed.messages setup.feed).length⟩

/-- What a worker has come to when a calm run has ended. -/
structure ServedAll (setup : Setup) (index : ℕ) (w : Worker) : Prop where
  account : w.Account
  stopped : w.activity = .stopped false
  place : w.index = index
  agent : setup.agents[index]? = some w.agent
  limit : w.limit = setup.limit
  called : w.calls.map (·.request) = requests setup.ids setup.feed

theorem RanOut.shows (h : RanOut setup t) (calm : setup.Calm)
    (within : index < setup.agents.length) :
    ∃ w, t.workers[index]? = some w ∧ ServedAll setup index w ∧
      Shows t index ⟨requests setup.ids setup.feed, w.entries, w.stats, setup.totals⟩ := by
  obtain ⟨moves, run, alone⟩ := h.run
  obtain ⟨result, finished⟩ := Option.isSome_iff_exists.1 h.ended
  have spotless := (spotless_of_calm run calm alone).1
  have crew := crew_of_run run
  have complete := complete_of_run run finished spotless
  have result_eq := (register_of_run run).summary_eq finished spotless
  obtain ⟨w, worker⟩ : ∃ w, t.workers[index]? = some w :=
    ⟨_, List.getElem?_eq_getElem (crew.length.symm ▸ within)⟩
  have hw := List.mem_of_getElem? worker
  obtain ⟨stopped, called⟩ := complete.called w hw
  have out : ServedAll setup index w :=
    ⟨crew.account w hw, stopped, index_of_run run worker, crew.agent worker, crew.limit w hw, called⟩
  refine ⟨w, worker, out, ⟨w, worker, called, rfl⟩, _, result_eq ▸ finished, ?_, ?_⟩
  · rw [List.getElem?_map, worker]
    rfl
  · have htagged : t.ingestion.tagged.length = (Feed.messages setup.feed).length := by
      rw [complete.intake.tagged, length_requests]
    rw [Setup.totals, ← crew.length, ← htagged, ← complete.dispatched, ← complete.intake.received,
      ← complete.intake.unconverted]

namespace Alike

variable {w v : Worker} (alike : Alike setup other index)

include alike

theorem requests_eq : requests setup.ids setup.feed = requests other.ids other.feed := by
  rw [alike.ids, alike.feed]

theorem totals_eq : setup.totals = other.totals := by
  rw [Setup.totals, Setup.totals, alike.feed, alike.agents]

/-- The agent's worker has come to the same. -/
theorem worker_eq (out : ServedAll setup index w) (out' : ServedAll other index v) :
    w.entries = v.entries ∧ w.stats = v.stats := by
  have agent : w.agent = v.agent := by
    have hagent := alike.agent
    rw [out.agent, out'.agent] at hagent
    exact Option.some.inj hagent
  have limit : w.limit = v.limit := by rw [out.limit, out'.limit, alike.limit]
  have called : w.calls.map (·.request) = v.calls.map (·.request) := by
    rw [out.called, out'.called, alike.requests_eq]
  obtain ⟨counts, log⟩ :=
    out.account.stopped_eq out'.account out.stopped out'.stopped agent limit called
  refine ⟨?_, by rw [Worker.stats, Worker.stats, agent, counts]⟩
  rw [Worker.entries, Worker.entries, out.place, out'.place, agent, log]

/-- The timetable depends on the agents only by how long their calls take. -/
theorem pace_eq (effort : ∀ i, i ≠ index → ∀ k, setup.effort i k = other.effort i k) :
    setup.pace = other.pace := by
  have heffort : setup.effort = other.effort := by
    funext i k
    rcases eq_or_ne i index with rfl | hne
    · rw [Setup.effort, Setup.effort, alike.agent, alike.requests_eq, alike.limit]
    · exact effort i hne k
  have room : setup.room = other.room := by rw [Setup.room, Setup.room, alike.capacity]
  unfold Setup.pace
  simp only [alike.agents, alike.feed, room, heffort]

end Alike

/-- Two calm runs that differ in the other agents only show the same of an agent, whatever the order
of the steps. If the calls of the others take the same time, too, then in virtual time the calls of
the agent begin at the same times, and the runs end at the same time. -/
theorem isolated (alike : Alike setup other index) (within : index < setup.agents.length)
    (calm : setup.Calm) (calm' : other.Calm) :
    (∀ t u, RanOut setup t → RanOut other u → ∃ view, Shows t index view ∧ Shows u index view) ∧
    ((∀ i, i ≠ index → ∀ k, setup.effort i k = other.effort i k) → ∀ moves more t u,
      RunBy (Prompt none) (.start setup false) moves t →
      RunBy (Prompt none) (.start other false) more u →
      t.supervisor.result.isSome = true → u.supervisor.result.isSome = true →
      t.workers[index]?.map (·.calls) = u.workers[index]?.map (·.calls) ∧ t.now = u.now) := by
  have within' : index < other.agents.length := alike.agents ▸ within
  refine ⟨?_, ?_⟩
  · intro t u ended ended'
    obtain ⟨w, -, out, shows⟩ := ended.shows calm within
    obtain ⟨v, -, out', shows'⟩ := ended'.shows calm' within'
    obtain ⟨entries, stats⟩ := alike.worker_eq out out'
    rw [alike.requests_eq, alike.totals_eq, entries, stats] at shows
    exact ⟨_, shows, shows'⟩
  · intro effort moves more t u run run' ended ended'
    have agents : setup.agents ≠ [] := List.ne_nil_of_length_pos (Nat.zero_lt_of_lt within)
    have agents' : other.agents ≠ [] := List.ne_nil_of_length_pos (Nat.zero_lt_of_lt within')
    have timely := timely_of_run calm agents run ended
    have timely' := timely_of_run calm' agents' run' ended'
    have ranOut : RanOut setup t := ⟨⟨moves, run.run, run.calm⟩, ended⟩
    have ranOut' : RanOut other u := ⟨⟨more, run'.run, run'.calm⟩, ended'⟩
    obtain ⟨w, worker, out, -⟩ := ranOut.shows calm within
    obtain ⟨v, worker', out', -⟩ := ranOut'.shows calm' within'
    have pace := alike.pace_eq effort
    have calls : w.calls = v.calls := by
      apply Worker.calls_ext
      · rw [out.called, out'.called, alike.requests_eq]
      · rw [timely.starts worker, timely'.starts worker', pace, alike.feed]
    refine ⟨by rw [worker, worker', Option.map_some, Option.map_some, calls], ?_⟩
    rw [timely.finished, timely'.finished, pace, alike.feed]

/-- The calm relay with another agent in the second place, which takes as long but fares
differently. -/
def otherSetup : Setup :=
  { calmSetup with
    agents :=
      [.scripted "a" [⟨0, .silence⟩],
        .scripted "c" [⟨3, .answer (.ok .none)⟩, ⟨20, .answer (.ok .none)⟩]] }

theorem calm_otherSetup : otherSetup.Calm where
  feed := calm_calmSetup.feed
  agents := by
    intro agent hagent
    simp only [otherSetup, List.mem_cons, List.not_mem_nil, or_false] at hagent
    rcases hagent with rfl | rfl <;> exact scripted_steady (by simp [outcome_ne_crash]) _

theorem effort_otherSetup (i k : ℕ) : calmSetup.effort i k = otherSetup.effort i k := by
  have feed : otherSetup.feed = calmSetup.feed := rfl
  have ids : otherSetup.ids = calmSetup.ids := rfl
  rw [Setup.effort, Setup.effort, feed, ids]
  cases (requests calmSetup.ids calmSetup.feed)[k]? with
  | none => simp
  | some request =>
    rcases i with _ | _ | i
    · rfl
    · rcases k with _ | _ | k <;> rfl
    · rfl

theorem isolated_calmSetup :
    Alike calmSetup otherSetup 0 ∧ 0 < calmSetup.agents.length ∧ calmSetup.Calm ∧
    otherSetup.Calm ∧
    ∃ t u view, Shows t 0 view ∧ Shows u 0 view ∧ view.totals = ⟨3, 1, 4⟩ ∧
      view.stats = ⟨"a", 2, 0, 0, 0, 2⟩ ∧
      t.workers.map (·.counts) ≠ u.workers.map (·.counts) ∧
      t.workers[0]?.map (·.calls) = u.workers[0]?.map (·.calls) ∧ t.now = u.now := by
  have alike : Alike calmSetup otherSetup 0 := ⟨rfl, rfl, rfl, rfl, rfl, rfl⟩
  have within : 0 < calmSetup.agents.length := by decide
  obtain ⟨look, time⟩ := isolated alike within calm_calmSetup calm_otherSetup
  have quiet (setup : Setup) : (State.start setup false).Settled none := by
    rintro moment hmoment
    cases hmoment
  obtain ⟨moves, run⟩ := prompt_runFrom 40 _ (quiet calmSetup)
  obtain ⟨more, run'⟩ := prompt_runFrom 40 _ (quiet otherSetup)
  have ended : ((State.start calmSetup false).runFrom none 40).supervisor.result.isSome = true :=
    rfl
  have ended' : ((State.start otherSetup false).runFrom none 40).supervisor.result.isSome = true :=
    rfl
  obtain ⟨view, shows, shows'⟩ :=
    look _ _ ⟨⟨_, run.run, run.calm⟩, ended⟩ ⟨⟨_, run'.run, run'.calm⟩, ended'⟩
  obtain ⟨calls, now⟩ :=
    time (fun i _ k => effort_otherSetup i k) _ _ _ _ run run' ended ended'
  refine ⟨alike, within, calm_calmSetup, calm_otherSetup, _, _, view, shows, shows', ?_, ?_, ?_,
    calls, now⟩
  · obtain ⟨summary, result, -, totals⟩ := shows.summary
    cases result
    exact totals.symm
  · obtain ⟨summary, result, stats, -⟩ := shows.summary
    cases result
    exact (Option.some.inj stats).symm
  · decide +kernel

end Relay

end TxRelay
