import TxRelay.Proofs.Worker.Account

/-!
# A worker after the signal

Once the signal is raised a worker takes no request any more. It begins if it has not, a call in
flight comes to its own end, and then the worker stops and gives up its queue.

Results:
* `Winding.step`: what becomes of a worker, step by step.
* `Winding.calls`: it makes no call more.
* `Winding.inFlight`: a call that was in flight comes to its end and is counted once.
* `Winding.ended`: how it ends.
-/

namespace TxRelay.Worker

/-! ## The last steps -/

/-- What has become of a worker by a moment after the signal was raised. -/
inductive Winding (w : Worker) (now : ℕ) : Worker → Prop
  /-- It has taken no step since. -/
  | still : Winding w now w
  | begun (fresh : w.activity = .idle) : Winding w now w.begin
  | concluded {request finish outcome} (calling : w.activity = .calling request finish outcome)
      (due : finish ≤ now) : Winding w now (w.conclude request outcome)
  | stopped {v} (before : Winding w now v) (ready : v.activity = .waiting) :
    Winding w now (v.stop true)

variable {w v next : Worker} {now : ℕ} {request : Request} {finish : ℕ} {outcome : Outcome}

theorem Winding.later {after : ℕ} (h : Winding w now v) (le : now ≤ after) : Winding w after v := by
  induction h with
  | still => exact .still
  | begun fresh => exact .begun fresh
  | concluded calling due => exact .concluded calling (due.trans le)
  | stopped _ ready ih => exact .stopped ih ready

/-- A call ends with the worker ready again or broken down. -/
theorem conclude_activity (w : Worker) (request : Request) (outcome : Outcome) :
    (w.conclude request outcome).activity = .waiting ∨
      ∃ reason, outcome = .crash reason ∧
        (w.conclude request outcome).activity = .crashed reason := by
  cases outcome with
  | verdict | error => exact .inl rfl
  | crash reason => exact .inr ⟨reason, rfl, rfl⟩

/-- A worker that has taken a step since is ready or has ended. -/
theorem Winding.eq_or (h : Winding w now v) :
    v = w ∨ v.activity = .waiting ∨ v.released = true := by
  cases h with
  | still => exact .inl rfl
  | begun => exact .inr (.inl rfl)
  | concluded =>
    rcases conclude_activity w _ _ with ready | ⟨reason, -, crashed⟩
    · exact .inr (.inl ready)
    · exact .inr (.inr (by rw [released, crashed]))
  | stopped => exact .inr (.inr rfl)

/-- A worker steps on as it may once the signal is raised. -/
theorem Winding.step {closed : Bool} (h : Winding w now v) (step : Step v now true closed next) :
    Winding w now next := by
  have opened := step.opened
  cases step with
  | begin fresh =>
    rcases h.eq_or with rfl | ready | released
    · exact .begun fresh
    · rw [fresh] at ready; cases ready
    · rw [opened] at released; cases released
  | cancel waiting => exact .stopped h waiting
  | call waiting quiet => cases quiet
  | drained waiting quiet => cases quiet
  | conclude calling due =>
    rcases h.eq_or with rfl | ready | released
    · exact .concluded calling due
    · rw [calling] at ready; cases ready
    · rw [opened] at released; cases released

/-! ## What it comes to -/

/-- A call that was in flight has ended. Unless the worker broke down with it, it is counted in
exactly one place and has left exactly one record. -/
inductive CallEnded (w : Worker) (request : Request) (outcome : Outcome) (v : Worker) : Prop
  | counted {mark record} (counts : mark? outcome = some mark)
      (one : v.counts.get mark = w.counts.get mark + 1)
      (others : ∀ other ≠ mark, v.counts.get other = w.counts.get other)
      (leaves : outcomeRecord request outcome = [record])
      (log : v.activity = .waiting ∧ v.log = w.log ++ [record] ∨
        v.activity = .stopped true ∧ v.log = w.log ++ record :: farewell v.counts true)
  | broke {reason} (crash : outcome = .crash reason) (crashed : v.activity = .crashed reason)
      (counts : v.counts = w.counts) (log : v.log = w.log)

/-- The end of a call that is no breakdown is counted once and leaves one record. -/
theorem concluded_once (h : mark? outcome ≠ none) (w : Worker) (request : Request) :
    ∃ mark record, mark? outcome = some mark ∧
      (w.conclude request outcome).counts.get mark = w.counts.get mark + 1 ∧
      (∀ other ≠ mark, (w.conclude request outcome).counts.get other = w.counts.get other) ∧
      outcomeRecord request outcome = [record] ∧
      (w.conclude request outcome).log = w.log ++ [record] := by
  obtain ⟨mark, hmark⟩ := Option.ne_none_iff_exists'.1 h
  have leaves : ∃ record, outcomeRecord request outcome = [record] := by
    cases outcome with
    | verdict v => exact ⟨_, rfl⟩
    | error e => exact ⟨_, rfl⟩
    | crash => exact absurd rfl h
  obtain ⟨record, hrecord⟩ := leaves
  rw [conclude_of_mark h]
  refine ⟨mark, record, hmark, ?_, ?_, hrecord, congrArg (w.log ++ ·) hrecord⟩
  · rw [get_add, hmark, if_pos rfl]
  · intro other hother
    rw [get_add, hmark, if_neg (by simpa using hother.symm), Nat.add_zero]

theorem CallEnded.conclude (w : Worker) (request : Request) (outcome : Outcome) :
    CallEnded w request outcome (w.conclude request outcome) := by
  cases hm : mark? outcome with
  | none =>
    obtain ⟨reason, rfl⟩ := eq_crash_of_mark hm
    exact .broke rfl rfl rfl rfl
  | some m =>
    have hne : mark? outcome ≠ none := by simp [hm]
    obtain ⟨mark, record, hmark, one, others, leaves, log⟩ := concluded_once hne w request
    exact .counted hmark one others leaves (.inl ⟨by rw [conclude_of_mark hne], log⟩)

theorem CallEnded.conclude_stop (ready : (w.conclude request outcome).activity = .waiting) :
    CallEnded w request outcome ((w.conclude request outcome).stop true) := by
  have hne : mark? outcome ≠ none := by
    intro hm
    obtain ⟨reason, rfl⟩ := eq_crash_of_mark hm
    cases ready
  obtain ⟨mark, record, hmark, one, others, leaves, log⟩ := concluded_once hne w request
  refine .counted hmark one others leaves (.inr ⟨rfl, ?_⟩)
  rw [stop, log, List.append_assoc]
  rfl

/-- A call in flight is not interrupted. -/
theorem Winding.inFlight (h : Winding w now v)
    (calling : w.activity = .calling request finish outcome) :
    v = w ∨ finish ≤ now ∧ CallEnded w request outcome v := by
  have same {r f o} (hr : w.activity = .calling r f o) :
      r = request ∧ f = finish ∧ o = outcome := by
    simpa using hr.symm.trans calling
  cases h with
  | still => exact .inl rfl
  | begun fresh => rw [calling] at fresh; cases fresh
  | concluded hr due =>
    obtain ⟨rfl, rfl, rfl⟩ := same hr
    exact .inr ⟨due, .conclude w _ _⟩
  | stopped before ready =>
    cases before with
    | still => rw [calling] at ready; cases ready
    | begun fresh => rw [calling] at fresh; cases fresh
    | stopped => cases ready
    | concluded hr due =>
      obtain ⟨rfl, rfl, rfl⟩ := same hr
      exact .inr ⟨due, .conclude_stop ready⟩

theorem Winding.calls (h : Winding w now v) : v.calls = w.calls := by
  induction h with
  | still | begun => rfl
  | concluded => exact conclude_calls _ _ _
  | stopped _ _ ih => exact ih

theorem Winding.queue (h : Winding w now v) :
    v.queue = w.queue ∨ v.released = true ∧ v.queue = [] := by
  cases h with
  | still | begun => exact .inl rfl
  | @concluded request finish outcome =>
    cases outcome with
    | verdict | error => exact .inl rfl
    | crash => exact .inr ⟨rfl, rfl⟩
  | stopped => exact .inr ⟨rfl, rfl⟩

/-- Whether a record tells of the end of a call. -/
def Record.ofCall : Record → Bool
  | .answered .. | .refused .. => true
  | .moved .. | .ended .. => false

/-- Without a call in flight nothing more is counted, and no record of a call is left. -/
theorem Winding.apart (h : Winding w now v)
    (free : ∀ request finish outcome, w.activity ≠ .calling request finish outcome) :
    v.counts = w.counts ∧ v.log.filter Record.ofCall = w.log.filter Record.ofCall := by
  induction h with
  | still => exact ⟨rfl, rfl⟩
  | begun => exact ⟨rfl, by simp [begin, Record.ofCall]⟩
  | concluded calling => exact absurd calling (free _ _ _)
  | stopped _ _ ih => exact ⟨ih.1, by simpa [stop, farewell, Record.ofCall] using ih.2⟩

/-- A worker that has ended since broke down, or passed through draining and gave up its queue. -/
theorem Winding.ended (h : Winding w now v) (opened : w.released = false)
    (released : v.released = true) :
    (∃ reason, v.activity = .crashed reason) ∨
      v.activity = .stopped true ∧ v.queue = [] ∧
        ∃ before, v.log = before ++ farewell v.counts true := by
  cases h with
  | still => rw [opened] at released; cases released
  | begun => cases released
  | concluded =>
    rcases conclude_activity w _ _ with ready | ⟨reason, -, crashed⟩
    · rw [Worker.released, ready] at released; cases released
    · exact .inl ⟨reason, crashed⟩
  | @stopped u => exact .inr ⟨rfl, rfl, u.log, rfl⟩

end TxRelay.Worker
