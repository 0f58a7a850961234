import Mathlib.Tactic
import TxRelay.Worker.Basic

/-!
# The account of a worker

What a worker has counted and logged follows from the calls it made and from what it is about: each
call that has come to an outcome is counted once and leaves one record, in the order of the calls.
The call in flight, and one that the worker broke down with, are neither counted nor logged.

Results:
* `Account.step`, `account_fresh`: every step of a worker keeps its account, from the beginning on.
* `get_add`: an outcome that is no breakdown is counted in exactly one place.
* `Account.length_calls`: of the calls made at most the last has not come to an outcome.
* `Lives.account`: whatever becomes of a worker keeps its account.
* `scripted_steady`: an agent whose script has no breakdown breaks no worker down.
-/

namespace TxRelay

/-! ## Steady agents -/

/-- An agent none of whose calls breaks its caller down within a limit. -/
def Agent.Steady (limit : ℕ) (a : Agent) : Prop :=
  ∀ index request reason, (a.respond index request).outcome limit ≠ .crash reason

/-- Only a reply that ends with a breakdown comes to one. -/
theorem outcome_ne_crash {reply : Reply} (h : ∀ reason, reply.ending ≠ .crash reason) (limit : ℕ)
    (reason : String) : reply.outcome limit ≠ .crash reason := by
  unfold Reply.outcome
  split_ifs
  · cases hending : reply.ending with
    | answer result =>
      cases result with
      | error e => simp [Outcome.ofAnswer]
      | ok v =>
        simp only [Outcome.ofAnswer]
        split_ifs <;> simp
    | silence => simp
    | crash reason => exact absurd hending (h reason)
  · simp

/-- An agent whose script has no breakdown is steady. -/
theorem scripted_steady {limit : ℕ} {script : List Reply}
    (steady : ∀ reply ∈ script, ∀ reason, reply.outcome limit ≠ .crash reason) (address : String) :
    (Agent.scripted address script).Steady limit := by
  intro index request reason
  change (Agent.scriptedReply script index).outcome limit ≠ .crash reason
  unfold Agent.scriptedReply
  cases hindex : script[index]? with
  | some reply => exact steady reply (List.mem_of_getElem? hindex) reason
  | none =>
    cases hlast : script.getLast? with
    | some reply => exact steady reply (List.mem_of_getLast? hlast) reason
    | none => exact outcome_ne_crash (by simp [Reply.plain]) limit reason

namespace Worker

/-! ## What a step does -/

@[simp] theorem fresh_activity (index : ℕ) (agent : Agent) (limit : ℕ) (queue : List Request) :
    (fresh index agent limit queue).activity = .idle := rfl

@[simp] theorem begin_activity (w : Worker) : w.begin.activity = .waiting := rfl

@[simp] theorem call_activity (w : Worker) (now : ℕ) (request : Request) (queue : List Request) :
    (w.call now request queue).activity =
      .calling request (now + (w.agent.respond w.calls.length request).duration w.limit)
        ((w.agent.respond w.calls.length request).outcome w.limit) := rfl

@[simp] theorem stop_activity (w : Worker) (cancelled : Bool) :
    (w.stop cancelled).activity = .stopped cancelled := rfl

@[simp] theorem conclude_verdict_activity (w : Worker) (request : Request) (v : Verdict) :
    (w.conclude request (.verdict v)).activity = .waiting := rfl

@[simp] theorem conclude_error_activity (w : Worker) (request : Request) (e : CallError) :
    (w.conclude request (.error e)).activity = .waiting := rfl

@[simp] theorem conclude_crash_activity (w : Worker) (request : Request) (reason : String) :
    (w.conclude request (.crash reason)).activity = .crashed reason := rfl

@[simp] theorem fresh_released (index : ℕ) (agent : Agent) (limit : ℕ) (queue : List Request) :
    (fresh index agent limit queue).released = false := rfl

@[simp] theorem begin_released (w : Worker) : w.begin.released = false := rfl

@[simp] theorem call_released (w : Worker) (now : ℕ) (request : Request) (queue : List Request) :
    (w.call now request queue).released = false := rfl

@[simp] theorem stop_released (w : Worker) (cancelled : Bool) :
    (w.stop cancelled).released = true := rfl

@[simp] theorem conclude_verdict_released (w : Worker) (request : Request) (v : Verdict) :
    (w.conclude request (.verdict v)).released = false := rfl

@[simp] theorem conclude_error_released (w : Worker) (request : Request) (e : CallError) :
    (w.conclude request (.error e)).released = false := rfl

@[simp] theorem conclude_crash_released (w : Worker) (request : Request) (reason : String) :
    (w.conclude request (.crash reason)).released = true := rfl

/-- What a step of a worker does at a moment. -/
inductive Step (w : Worker) (now : ℕ) (signal closed : Bool) : Worker → Prop
  | begin (fresh : w.activity = .idle) : Step w now signal closed w.begin
  | cancel (waiting : w.activity = .waiting) (raised : signal = true) :
    Step w now signal closed (w.stop true)
  | call {request rest} (waiting : w.activity = .waiting) (quiet : signal = false)
      (front : w.queue = request :: rest) :
    Step w now signal closed (w.call now request rest)
  | drained (waiting : w.activity = .waiting) (quiet : signal = false) (front : w.queue = [])
      (ended : closed = true) :
    Step w now signal closed (w.stop false)
  | conclude {request finish outcome} (calling : w.activity = .calling request finish outcome)
      (due : finish ≤ now) :
    Step w now signal closed (w.conclude request outcome)

theorem step_cases {now : ℕ} {signal closed : Bool} {w next : Worker}
    (h : w.step now signal closed = some next) : Step w now signal closed next := by
  unfold step at h
  split at h
  next fresh => cases h; exact .begin fresh
  next waiting =>
    split at h
    next raised => cases h; exact .cancel waiting raised
    next raised =>
      have quiet : signal = false := by simpa using raised
      split at h
      next request rest front => cases h; exact .call waiting quiet front
      next front =>
        split_ifs at h with ended
        cases h; exact .drained waiting quiet front ended
  next request finish outcome calling =>
    split_ifs at h with due
    cases h; exact .conclude calling due
  next => cases h
  next => cases h

theorem conclude_agent_limit (w : Worker) (request : Request) (outcome : Outcome) :
    (w.conclude request outcome).agent = w.agent ∧
      (w.conclude request outcome).limit = w.limit := by
  unfold conclude
  split <;> exact ⟨rfl, rfl⟩

theorem conclude_calls (w : Worker) (request : Request) (outcome : Outcome) :
    (w.conclude request outcome).calls = w.calls := by
  unfold conclude
  split <;> rfl

theorem Step.agent_limit {now : ℕ} {signal closed : Bool} {w next : Worker}
    (step : Step w now signal closed next) : next.agent = w.agent ∧ next.limit = w.limit := by
  cases step with
  | conclude => exact conclude_agent_limit _ _ _
  | begin | cancel | call | drained => exact ⟨rfl, rfl⟩

/-- Only a worker that has not ended takes a step. -/
theorem Step.opened {now : ℕ} {signal closed : Bool} {w next : Worker}
    (step : Step w now signal closed next) : w.released = false := by
  cases step with
  | begin fresh => simp [released, fresh]
  | cancel waiting raised => simp [released, waiting]
  | call waiting quiet front => simp [released, waiting]
  | drained waiting quiet front ended => simp [released, waiting]
  | conclude calling due => simp [released, calling]

/-! ## Marks -/

/-- What a call counts as. -/
inductive Mark where
  | success
  | failure
  | rejection
  | timeout
  deriving DecidableEq, Repr

/-- What a call that came to an outcome counts as; a breakdown counts as nothing. -/
def mark? : Outcome → Option Mark
  | .verdict _ => some .success
  | .error (.timeout _) => some .timeout
  | .error (.rejected _) | .error (.remote _) => some .rejection
  | .error (.transport _) | .error (.undecodable _) | .error (.other _) => some .failure
  | .crash _ => none

/-- How many calls counted as a mark. -/
def Counts.get (c : Counts) : Mark → ℕ
  | .success => c.succeeded
  | .failure => c.failed
  | .rejection => c.rejected
  | .timeout => c.timedOut

/-- How many calls were counted. -/
def Counts.total (c : Counts) : ℕ :=
  c.succeeded + c.failed + c.rejected + c.timedOut

/-- How many of some outcomes count as a mark. -/
def occurrences (mark : Mark) (outcomes : List Outcome) : ℕ :=
  outcomes.countP fun o => mark? o = some mark

/-- The counts for so many requests and for outcomes. -/
def Counts.of (received : ℕ) (outcomes : List Outcome) : Counts where
  received
  succeeded := occurrences .success outcomes
  failed := occurrences .failure outcomes
  rejected := occurrences .rejection outcomes
  timedOut := occurrences .timeout outcomes

theorem get_of (received : ℕ) (outcomes : List Outcome) (mark : Mark) :
    (Counts.of received outcomes).get mark = occurrences mark outcomes := by
  cases mark <;> rfl

theorem occurrences_append (mark : Mark) (outcomes : List Outcome) (o : Outcome) :
    occurrences mark (outcomes ++ [o]) =
      occurrences mark outcomes + if mark? o = some mark then 1 else 0 := by
  simp [occurrences, List.countP_append, List.countP_singleton]

theorem add_received (c : Counts) (o : Outcome) : (c.add o).received = c.received := by
  cases o with
  | verdict => rfl
  | error e => cases e <;> rfl
  | crash => rfl

/-- An outcome is counted in exactly one place, and a breakdown in none. -/
theorem get_add (c : Counts) (o : Outcome) (mark : Mark) :
    (c.add o).get mark = c.get mark + if mark? o = some mark then 1 else 0 := by
  cases o with
  | verdict => cases mark <;> rfl
  | error e => cases e <;> cases mark <;> rfl
  | crash => cases mark <;> rfl

theorem Counts.ext_get {c d : Counts} (received : c.received = d.received)
    (marks : ∀ mark, c.get mark = d.get mark) : c = d := by
  cases c
  cases d
  simp only [Counts.mk.injEq]
  exact ⟨received, marks .success, marks .failure, marks .rejection, marks .timeout⟩

theorem of_append (received : ℕ) (outcomes : List Outcome) (o : Outcome) :
    Counts.of received (outcomes ++ [o]) = (Counts.of received outcomes).add o := by
  apply Counts.ext_get
  · rw [add_received]; rfl
  · intro mark
    rw [get_add, get_of, get_of, occurrences_append]

/-- Every outcome that is no breakdown has one of the four marks. -/
theorem sum_occurrences {outcomes : List Outcome} (h : ∀ o ∈ outcomes, mark? o ≠ none) :
    occurrences .success outcomes + occurrences .failure outcomes +
      occurrences .rejection outcomes + occurrences .timeout outcomes = outcomes.length := by
  induction outcomes with
  | nil => rfl
  | cons o rest ih =>
    have hrest := ih fun o ho => h o (List.mem_cons_of_mem _ ho)
    have ho := h o List.mem_cons_self
    unfold occurrences at hrest ⊢
    simp only [List.countP_cons, List.length_cons]
    cases hm : mark? o with
    | none => exact absurd hm ho
    | some mark => cases mark <;> simp <;> omega

/-! ## The account -/

/-- What a call comes to that a worker makes after so many others. -/
def outcomeOf (w : Worker) (index : ℕ) (call : Call) : Outcome :=
  (w.agent.respond index call.request).outcome w.limit

/-- The calls that have come to an outcome the worker went on with. -/
def settled (w : Worker) : List Call :=
  match w.activity with
  | .calling .. | .crashed _ => w.calls.dropLast
  | _ => w.calls

/-- How many calls have not come to such an outcome: the one in flight, or the one that the worker
broke down with. -/
def unsettled (w : Worker) : ℕ :=
  match w.activity with
  | .calling .. | .crashed _ => 1
  | _ => 0

/-- What the settled calls came to. -/
def outcomes (w : Worker) : List Outcome :=
  w.settled.mapIdx w.outcomeOf

/-- The records of the settled calls. -/
def callRecords (w : Worker) : List Record :=
  (w.settled.mapIdx fun index call => outcomeRecord call.request (w.outcomeOf index call)).flatten

/-- What a worker has logged. -/
def story (w : Worker) : List Record :=
  match w.activity with
  | .idle => []
  | .stopped cancelled => .moved .idle .running :: w.callRecords ++ farewell w.counts cancelled
  | _ => .moved .idle .running :: w.callRecords

/-- A worker's counts and log are those of its calls. -/
structure Account (w : Worker) : Prop where
  counts : w.counts = .of w.calls.length w.outcomes
  log : w.log = w.story
  idle : w.activity = .idle → w.calls = []
  /-- A call in flight is the last, and ends by itself or at the limit. -/
  current : ∀ {request finish outcome}, w.activity = .calling request finish outcome →
    ∃ before start, w.calls = before ++ [⟨request, start⟩] ∧
      outcome = w.outcomeOf before.length ⟨request, start⟩ ∧
      finish = start + (w.agent.respond before.length request).duration w.limit
  /-- A worker breaks down with its last call only. -/
  broken : ∀ {reason}, w.activity = .crashed reason →
    ∃ before call, w.calls = before ++ [call] ∧ w.outcomeOf before.length call = .crash reason
  marked : ∀ o ∈ w.outcomes, mark? o ≠ none

theorem account_fresh (index : ℕ) (agent : Agent) (limit : ℕ) (queue : List Request) :
    Account (fresh index agent limit queue) where
  counts := rfl
  log := rfl
  idle _ := rfl
  current h := by cases h
  broken h := by cases h
  marked o h := by simp [outcomes, settled, fresh] at h

/-- The account does not depend on the queue. -/
theorem Account.setQueue {w : Worker} (h : Account w) (queue : List Request) :
    Account { w with queue } :=
  ⟨h.counts, h.log, h.idle, h.current, h.broken, h.marked⟩

section Changes

variable {w : Worker}

/-- A worker that goes on with the same calls settled has the same outcomes and call records. -/
theorem outcomes_of_settled {next : Worker} (settled : next.settled = w.settled)
    (agent : next.agent = w.agent) (limit : next.limit = w.limit) :
    next.outcomes = w.outcomes ∧ next.callRecords = w.callRecords := by
  have houtcome : next.outcomeOf = w.outcomeOf := by
    funext index call
    rw [outcomeOf, agent, limit]; rfl
  rw [outcomes, callRecords, settled, houtcome]
  exact ⟨rfl, rfl⟩

theorem Account.begin (h : Account w) (fresh : w.activity = .idle) : Account w.begin := by
  have hcalls := h.idle fresh
  have hsettled : w.begin.settled = w.settled := by simp [Worker.begin, settled, fresh]
  obtain ⟨houtcomes, hrecords⟩ := outcomes_of_settled hsettled rfl rfl
  refine ⟨?_, ?_, by simp, by simp, by simp, ?_⟩
  · rw [houtcomes]; exact h.counts
  · have hnone : w.callRecords = [] := by simp [callRecords, settled, fresh, hcalls]
    have hlog : w.log = [] := by rw [h.log, story, fresh]
    rw [story, begin_activity, hrecords, hnone, Worker.begin, hlog]
    rfl
  · rw [houtcomes]; exact h.marked

theorem Account.stop (h : Account w) (waiting : w.activity = .waiting) (cancelled : Bool) :
    Account (w.stop cancelled) := by
  have hsettled : (w.stop cancelled).settled = w.settled := by simp [Worker.stop, settled, waiting]
  obtain ⟨houtcomes, hrecords⟩ := outcomes_of_settled hsettled rfl rfl
  have hlog : w.log = .moved .idle .running :: w.callRecords := by rw [h.log, story, waiting]
  refine ⟨?_, ?_, by simp, by simp, by simp, ?_⟩
  · rw [houtcomes]; exact h.counts
  · rw [story, hrecords]
    simp [Worker.stop, hlog]
  · rw [houtcomes]; exact h.marked

theorem Account.call (h : Account w) (waiting : w.activity = .waiting) (now : ℕ)
    (request : Request) (queue : List Request) : Account (w.call now request queue) := by
  have hsettled : (w.call now request queue).settled = w.settled := by
    simp [Worker.call, settled, waiting]
  obtain ⟨houtcomes, hrecords⟩ := outcomes_of_settled hsettled rfl rfl
  have hlog : w.log = .moved .idle .running :: w.callRecords := by rw [h.log, story, waiting]
  refine ⟨?_, ?_, by simp, ?_, by simp, ?_⟩
  · rw [houtcomes]
    simp [Worker.call, h.counts, Counts.of]
  · rw [story, hrecords]
    simp [Worker.call, hlog]
  · intro request' finish outcome calling
    cases calling
    exact ⟨w.calls, now, rfl, rfl, rfl⟩
  · rw [houtcomes]; exact h.marked

theorem eq_crash_of_mark {outcome : Outcome} (h : mark? outcome = none) :
    ∃ reason, outcome = .crash reason := by
  cases outcome with
  | crash reason => exact ⟨reason, rfl⟩
  | verdict => cases h
  | error e => cases e <;> cases h

/-- What a call to a steady agent comes to counts as something. -/
theorem mark_of_steady {agent : Agent} {limit : ℕ} (steady : agent.Steady limit) (index : ℕ)
    (request : Request) : mark? ((agent.respond index request).outcome limit) ≠ none := by
  intro none
  obtain ⟨reason, crash⟩ := eq_crash_of_mark none
  exact steady index request reason crash

/-- A worker goes on after a call that came to anything but a breakdown. -/
theorem conclude_of_mark {outcome : Outcome} (h : mark? outcome ≠ none) (w : Worker)
    (request : Request) :
    w.conclude request outcome =
      { w with
        activity := .waiting
        counts := w.counts.add outcome
        log := w.log ++ outcomeRecord request outcome } := by
  unfold Worker.conclude
  split
  · exact absurd rfl h
  · rfl

variable {request : Request} {finish : ℕ}

theorem Account.breakDown {reason : String} (h : Account w)
    (calling : w.activity = .calling request finish (.crash reason)) :
    Account (w.conclude request (.crash reason)) := by
  obtain ⟨before, start, hcalls, houtcome, -⟩ := h.current calling
  have hsettled : (w.conclude request (.crash reason)).settled = w.settled := by
    simp [Worker.conclude, settled, calling]
  obtain ⟨houtcomes, hrecords⟩ := outcomes_of_settled hsettled rfl rfl
  have hlog : w.log = .moved .idle .running :: w.callRecords := by rw [h.log, story, calling]
  refine ⟨?_, ?_, by simp, by simp, ?_, ?_⟩
  · rw [houtcomes]; exact h.counts
  · rw [story, hrecords]
    simp [Worker.conclude, hlog]
  · intro reason' broken
    cases broken
    exact ⟨before, ⟨request, start⟩, hcalls, houtcome.symm⟩
  · rw [houtcomes]; exact h.marked

theorem Account.goOn {outcome : Outcome} (h : Account w)
    (calling : w.activity = .calling request finish outcome) (hm : mark? outcome ≠ none) :
    Account (w.conclude request outcome) := by
  obtain ⟨before, start, hcalls, houtcome, -⟩ := h.current calling
  have hlog : w.log = .moved .idle .running :: w.callRecords := by rw [h.log, story, calling]
  have hsettled : w.settled = before := by simp [settled, calling, hcalls]
  rw [conclude_of_mark hm]
  set next : Worker :=
    { w with
      activity := .waiting
      counts := w.counts.add outcome
      log := w.log ++ outcomeRecord request outcome } with hnext
  have hdone : next.settled = before ++ [⟨request, start⟩] := hcalls
  have houtcomes : next.outcomes = w.outcomes ++ [outcome] := by
    rw [outcomes, hdone, List.mapIdx_concat, outcomes, hsettled, houtcome]
    rfl
  have hrecords : next.callRecords = w.callRecords ++ outcomeRecord request outcome := by
    rw [callRecords, hdone, List.mapIdx_concat, List.flatten_append, callRecords, hsettled,
      houtcome]
    simp [outcomeOf, hnext]
  refine ⟨?_, ?_, by simp, by simp, by simp, ?_⟩
  · rw [houtcomes, of_append, ← h.counts]
  · rw [story, hrecords]
    simp [hnext, hlog]
  · intro o ho
    rw [houtcomes, List.mem_append, List.mem_singleton] at ho
    rcases ho with ho | rfl
    · exact h.marked o ho
    · exact hm

/-- Every step of a worker keeps its account. -/
theorem Account.step {now : ℕ} {signal closed : Bool} {next : Worker} (h : Account w)
    (step : Step w now signal closed next) : Account next := by
  cases step with
  | begin fresh => exact h.begin fresh
  | cancel waiting raised => exact h.stop waiting true
  | call waiting quiet front => exact h.call waiting now _ _
  | drained waiting quiet front ended => exact h.stop waiting false
  | @conclude request finish outcome calling due =>
    cases hm : mark? outcome with
    | none =>
      obtain ⟨reason, rfl⟩ := eq_crash_of_mark hm
      exact h.breakDown calling
    | some mark => exact h.goOn calling (by simp [hm])

theorem Account.total_eq (h : Account w) : w.counts.total = w.settled.length := by
  have hlength : w.outcomes.length = w.settled.length := by simp [outcomes]
  rw [← hlength, ← sum_occurrences h.marked, h.counts]
  rfl

/-- All calls made but the one that is unsettled have come to an outcome that is counted. -/
theorem Account.length_calls (h : Account w) : w.calls.length = w.counts.total + w.unsettled := by
  rw [h.total_eq]
  cases hactivity : w.activity with
  | calling request finish outcome =>
    obtain ⟨before, start, hcalls, -⟩ := h.current hactivity
    simp [settled, unsettled, hactivity, hcalls]
  | crashed reason =>
    obtain ⟨before, call, hcalls, -⟩ := h.broken hactivity
    simp [settled, unsettled, hactivity, hcalls]
  | idle | waiting | stopped => simp [settled, unsettled, hactivity]

/-- The call in flight is the last one made. -/
theorem Account.getLast?_calls {outcome : Outcome} (h : Account w)
    (calling : w.activity = .calling request finish outcome) :
    (w.calls.map (·.request)).getLast? = some request := by
  obtain ⟨before, start, hcalls, -⟩ := h.current calling
  simp [hcalls]

end Changes

/-! ## Lives -/

/-- A worker becomes another by steps, at any moments and whatever it is told then of the signal and of
its queue, and by changes of the queue in between. -/
inductive Lives (w : Worker) : Worker → Prop
  | still : Lives w w
  | step {v next : Worker} {now : ℕ} {signal closed : Bool} (lives : Lives w v)
      (step : Step v now signal closed next) : Lives w next
  | queue {v : Worker} (lives : Lives w v) (queue : List Request) : Lives w { v with queue }

theorem Lives.agent_limit {w v : Worker} (lives : Lives w v) :
    v.agent = w.agent ∧ v.limit = w.limit := by
  induction lives with
  | still => exact ⟨rfl, rfl⟩
  | step _ step ih => exact ⟨step.agent_limit.1.trans ih.1, step.agent_limit.2.trans ih.2⟩
  | queue _ _ ih => exact ih

theorem Lives.account {w v : Worker} (lives : Lives w v) (h : Account w) : Account v := by
  induction lives with
  | still => exact h
  | step _ step ih => exact ih.step step
  | queue _ queue ih => exact ih.setQueue queue

end Worker

end TxRelay
