import TxRelay.Proofs.Relay.Moves
import TxRelay.Worker.Run

/-!
# The log of a worker

What a worker has logged when it has ended is its whole life: the changes of its stage, one entry for
each call in between, in the order of the calls, and the counts at the end. Nobody else sees the counts
of a worker that was cancelled. The entries of the calls are as many as were counted, kind by kind.

Results:
* `lives_run`, `lives_of_run`: a worker that is run alone, and the workers of a relay, live as workers do.
* `journal_of_end`: the log of a worker that has ended other than by a breakdown.
-/

namespace TxRelay.Worker

open TxRelay.Relay (workerEnd?)

/-! ## Lives that are led -/

section Lives

variable {w v u : Worker}

theorem Lives.runFrom {closed : Bool} {signalAt : Option ℕ} {fuel now moment : ℕ} (lives : Lives w v)
    (ran : runFrom closed signalAt fuel now v = some (moment, u)) :
    Lives w u ∧ u.released = true := by
  induction fuel generalizing now v with
  | zero => cases ran
  | succ fuel ih =>
    rw [Worker.runFrom] at ran
    split at ran
    next next step => exact ih (lives.step (step_cases step)) ran
    next =>
      split_ifs at ran with released
      · cases ran
        exact ⟨lives, released⟩
      · split at ran
        next => exact ih lives ran
        next => cases ran

/-- A worker that is run alone leads such a life up to its end. -/
theorem lives_run {closed : Bool} {signalAt : Option ℕ} {moment : ℕ}
    (ran : w.run closed signalAt = some (moment, u)) : Lives w u ∧ u.released = true :=
  Lives.still.runFrom ran

theorem exists_workerEnd (released : w.released = true) : ∃ result, workerEnd? w = some result := by
  cases h : w.activity with
  | stopped cancelled => cases cancelled <;> exact ⟨_, by rw [workerEnd?, h]⟩
  | crashed reason => exact ⟨_, by rw [workerEnd?, h]⟩
  | idle | waiting | calling => simp [Worker.released, h] at released

/-- The agents' workers of a relay lead such lives, whatever the order of the steps. -/
theorem lives_of_run {setup : Relay.Setup} {signal : Bool} {moves : List Relay.Move} {t : Relay.State}
    (run : Relay.Run (.start setup signal) moves t) {index : ℕ} (worker : t.workers[index]? = some w) :
    ∃ agent, setup.agents[index]? = some agent ∧ Lives (fresh index agent setup.limit []) w := by
  induction run generalizing w with
  | start =>
    obtain ⟨agent, hagent, rfl⟩ := Relay.worker_start worker
    exact ⟨agent, hagent, .still⟩
  | @next moves t m u run move ih =>
    have moved := Relay.happens_of_after move
    cases moved with
    | ingestion step =>
      cases step with
      | push placing quiet target opened room =>
        rw [Relay.State.push, List.getElem?_set] at worker
        split_ifs at worker with same within
        · subst same
          obtain ⟨agent, hagent, lives⟩ := ih target
          cases worker
          exact ⟨agent, hagent, lives.queue _⟩
        · exact ih worker
      | cancel | exhaust | skip | tag | pause | fail | resume | finish | dead => exact ih worker
    | worker target step =>
      rw [Relay.State.setWorker, List.getElem?_set] at worker
      split_ifs at worker with same within
      · subst same
        obtain ⟨agent, hagent, lives⟩ := ih target
        cases worker
        exact ⟨agent, hagent, lives.step step⟩
      · exact ih worker
    | join => exact ih (by simpa using worker)
    | conclude => exact ih (by simpa using worker)
    | pass | raise => exact ih worker

end Lives

/-! ## The entries of a life -/

section Entries

variable (agent : String)

/-- The entry of a change of the stage. -/
def stageEntry (index : ℕ) (source target : String) : Log.Entry :=
  ⟨.debug, "chainfanout_core::worker", "worker state change",
    [Log.text "agent" agent, Log.count "index" index, Log.text "from" source,
      Log.text "to" target]⟩

/-- An entry tells of a call what it came to and is counted as. -/
inductive Tells (call : Call) : Outcome → Mark → Log.Entry → Prop
  | answered (v : Verdict) : Tells call (.verdict v) .success
      ⟨.info, "chainfanout_core::worker", "agent evaluation result",
        [Log.text "agent" agent, Log.text "request_id" call.request.id,
          Log.text "tx_hash" call.request.transactionHash, Log.count "findings" v.findings.length,
          Log.measured "elapsed_ms", Log.text "result" v.render]⟩
  | refused {e : CallError} {mark : Mark} (kind : mark? (.error e) = some mark) :
      Tells call (.error e) mark
        ⟨.warn, "chainfanout_core::worker", "error invoking agent",
          [Log.text "agent" agent, Log.text "request_id" call.request.id,
            Log.text "tx_hash" call.request.transactionHash, Log.measured "elapsed_ms",
            Log.text "error" e.message]⟩

/-- The entry of the end. -/
def endEntry (counts : Counts) (cancelled : Bool) : Log.Entry :=
  ⟨.info, "chainfanout_core::worker", "agent worker stopped",
    [Log.text "agent" agent, Log.count "received" counts.received,
      Log.count "succeeded" counts.succeeded, Log.count "failed" counts.failed,
      Log.count "rejected" counts.rejected, Log.count "timed_out" counts.timedOut,
      ("cancelled", .bool cancelled)]⟩

end Entries

/-- The calls of a worker with what they came to. -/
def conclusions (w : Worker) : List (Call × Outcome) :=
  w.calls.mapIdx fun index call => (call, w.outcomeOf index call)

/-- The log of a worker that has ended with a result tells its life, and its counts are those of the
entries. -/
structure Journal (w : Worker) (result : Except RunError Stats) : Prop where
  stage : w.stage = .stopped
  log : ∃ told : List (Mark × Log.Entry), ∃ cancelled : Bool,
    List.Forall₂ (fun c t => Tells w.agent.address c.1 c.2 t.1 t.2) w.conclusions told ∧
      w.entries = stageEntry w.agent.address w.index "idle" "running" :: told.map (·.2) ++
        [stageEntry w.agent.address w.index "running" "draining",
          stageEntry w.agent.address w.index "draining" "stopped",
          endEntry w.agent.address w.counts cancelled] ∧
      (∀ mark, w.counts.get mark = (told.map (·.1)).count mark) ∧
      (cancelled = true ↔ result = .error .cancelled)
  received : w.counts.received = w.calls.length
  counted : w.counts.received =
    w.counts.succeeded + w.counts.failed + w.counts.rejected + w.counts.timedOut
  returned : ∀ stats, result = .ok stats → stats = ⟨w.agent.address, w.counts⟩

/-- A call that came to an outcome left one entry, which tells of it. -/
theorem exists_tells {outcome : Outcome} (h : mark? outcome ≠ none) (agent : String) (index : ℕ)
    (call : Call) :
    ∃ mark entry, Tells agent call outcome mark entry ∧ mark? outcome = some mark ∧
      (outcomeRecord call.request outcome).map (·.entry index agent) = [entry] := by
  obtain ⟨mark, kind⟩ := Option.ne_none_iff_exists'.1 h
  cases outcome with
  | verdict v =>
    cases kind
    exact ⟨.success, _, .answered v, rfl, rfl⟩
  | error e => exact ⟨mark, _, .refused kind, kind, rfl⟩
  | crash => cases kind

theorem exists_told {cs : List (Call × Outcome)} (h : ∀ c ∈ cs, mark? c.2 ≠ none) (agent : String)
    (index : ℕ) :
    ∃ told : List (Mark × Log.Entry),
      List.Forall₂ (fun c t => Tells agent c.1 c.2 t.1 t.2) cs told ∧
        (cs.map fun c => outcomeRecord c.1.request c.2).flatten.map (·.entry index agent) =
          told.map (·.2) ∧
        ∀ mark, occurrences mark (cs.map (·.2)) = (told.map (·.1)).count mark := by
  induction cs with
  | nil => exact ⟨[], .nil, rfl, fun _ => rfl⟩
  | cons c cs ih =>
    obtain ⟨mark, entry, tells, kind, one⟩ := exists_tells (h c List.mem_cons_self) agent index c.1
    obtain ⟨told, all, entries, counts⟩ := ih fun d hd => h d (List.mem_cons_of_mem _ hd)
    refine ⟨(mark, entry) :: told, .cons tells all, ?_, fun other => ?_⟩
    · rw [List.map_cons, List.flatten_cons, List.map_append, one, entries]
      rfl
    · have rest := counts other
      unfold occurrences at rest ⊢
      rw [List.map_cons, List.countP_cons, rest, List.map_cons, List.count_cons, kind]
      simp

theorem outcomes_eq {w : Worker} (settled : w.settled = w.calls) :
    w.outcomes = w.conclusions.map (·.2) := by
  simp [conclusions, outcomes, settled, List.mapIdx_eq_zipIdx_map]

theorem Account.journal {w : Worker} {cancelled : Bool} (account : Account w)
    (stopped : w.activity = .stopped cancelled) {result : Except RunError Stats}
    (ended : workerEnd? w = some result) : Journal w result := by
  have settled : w.settled = w.calls := by rw [settled, stopped]
  have outcomes := outcomes_eq settled
  have marked : ∀ c ∈ w.conclusions, mark? c.2 ≠ none := fun c hc =>
    account.marked _ (outcomes.symm ▸ List.mem_map_of_mem hc)
  have records : (w.conclusions.map fun c => outcomeRecord c.1.request c.2).flatten =
      w.callRecords := by
    simp [conclusions, callRecords, settled, List.mapIdx_eq_zipIdx_map, Function.comp_def]
  obtain ⟨told, tells, entries, counts⟩ := exists_told marked w.agent.address w.index
  have log : w.log = .moved .idle .running :: w.callRecords ++ farewell w.counts cancelled := by
    rw [account.log, story, stopped]
  have received : w.counts.received = w.calls.length := by rw [account.counts]; rfl
  refine ⟨by rw [Worker.stage, stopped, Activity.stage], ⟨told, cancelled, tells, ?_, ?_, ?_⟩,
    received, ?_, ?_⟩
  · rw [Worker.entries, log, List.map_append, List.map_cons, ← records, entries]
    rfl
  · intro mark
    rw [account.counts, get_of, outcomes, counts]
  · rw [workerEnd?, stopped] at ended
    cases cancelled <;> cases ended <;> simp
  · have total := account.total_eq
    rw [settled] at total
    rw [received, ← total]
    rfl
  · rintro stats rfl
    rw [workerEnd?, stopped] at ended
    cases cancelled <;> cases ended
    rfl

/-- A worker none of whose calls broke it down has stopped when it has ended. -/
theorem Account.stopped {w : Worker} {result : Except RunError Stats} (account : Account w)
    (ended : workerEnd? w = some result) (unbroken : ∀ c ∈ w.conclusions, mark? c.2 ≠ none) :
    ∃ cancelled, w.activity = .stopped cancelled := by
  cases h : w.activity with
  | stopped cancelled => exact ⟨cancelled, rfl⟩
  | crashed reason =>
    -- the call that broke it down is its last, and nothing was counted for it
    obtain ⟨before, call, calls, crash⟩ := account.broken h
    have last : (call, Outcome.crash reason) ∈ w.conclusions := by
      simp [conclusions, calls, List.mapIdx_append, crash]
    exact absurd rfl (unbroken _ last)
  | idle | waiting | calling => simp [workerEnd?, h] at ended

/-- No call to a steady agent breaks its worker down. -/
theorem Lives.unbroken {index limit : ℕ} {agent : Agent} {queue : List Request} {w : Worker}
    (lives : Lives (fresh index agent limit queue) w) (steady : agent.Steady limit) :
    ∀ c ∈ w.conclusions, ∀ reason, c.2 ≠ .crash reason := by
  obtain ⟨sameAgent, sameLimit⟩ := lives.agent_limit
  rintro c hc reason crash
  obtain ⟨place, within, rfl⟩ := List.mem_mapIdx.1 hc
  rw [outcomeOf, sameAgent, sameLimit] at crash
  exact steady _ _ _ crash

/-- A worker that has begun with any queue, and that was run alone or given requests as it lived, tells
its life in its log when it has ended, unless it broke down with a call. -/
theorem journal_of_end (index : ℕ) (agent : Agent) (limit : ℕ) (queue : List Request) :
    (∀ closed signalAt moment w,
      (fresh index agent limit queue).run closed signalAt = some (moment, w) →
        Lives (fresh index agent limit queue) w ∧ ∃ result, workerEnd? w = some result) ∧
      ∀ w result, Lives (fresh index agent limit queue) w → workerEnd? w = some result →
        (∀ c ∈ w.conclusions, ∀ reason, c.2 ≠ .crash reason) → Journal w result := by
  constructor
  · intro closed signalAt moment w ran
    obtain ⟨lives, released⟩ := lives_run ran
    exact ⟨lives, exists_workerEnd released⟩
  · intro w result lives ended unbroken
    have account := lives.account (account_fresh index agent limit queue)
    obtain ⟨cancelled, stopped⟩ := account.stopped ended fun c hc none => by
      obtain ⟨reason, crash⟩ := eq_crash_of_mark none
      exact unbroken c hc reason crash
    exact account.journal stopped ended

/-- A request about a transaction that creates a contract. -/
def plainRequest : Request :=
  ⟨"request", ⟨1, ⟨16, "0xb", 0⟩, ⟨"0xa", "0xc", none, 7, 21000, "0x1", "0x0", "0x"⟩, none⟩⟩

/-- An agent that answers once, then refuses, and then says nothing. -/
def tiringAgent : Agent :=
  .scripted "agent" [⟨5, .answer (.ok .none)⟩, ⟨3, .answer (.error (.other "busy"))⟩, ⟨0, .silence⟩]

theorem steady_tiringAgent : tiringAgent.Steady 10 :=
  scripted_steady (by simp [outcome_ne_crash]) _

theorem journal_of_end_tiringAgent : ∃ moment w,
    (fresh 0 tiringAgent 10 [plainRequest, plainRequest, plainRequest, plainRequest]).run true
        (some 15) = some (moment, w) ∧
      Journal w (.error .cancelled) := by
  obtain ⟨alone, journal⟩ := journal_of_end 0 tiringAgent 10
    [plainRequest, plainRequest, plainRequest, plainRequest]
  obtain ⟨lives, -⟩ := alone true (some 15) 18 _ rfl
  exact ⟨18, _, rfl, journal _ _ lives rfl (lives.unbroken steady_tiringAgent)⟩

end TxRelay.Worker
