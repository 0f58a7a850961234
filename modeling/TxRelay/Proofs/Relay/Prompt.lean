import TxRelay.Proofs.Relay.Progress

/-!
# Runs in virtual time

In virtual time nothing waits longer than it must: time passes only when no task can step, and then
up to the next moment at which something happens. Nothing is said about the order in which the tasks
step at one moment. A signal from outside is raised at its moment, before, between or after the steps
that tasks take then.

Results:
* `RunBy.run`, `RunBy.keeps`: a run by a rule is a run, and what the moves that the rule allows keep
  is kept by it.
* `RunBy.cut`: the move with which a run gets out of what was true at its start.
* `prompt_runFrom`: the runs that are carried out are runs in virtual time.
* `held_of_stuck`, `stuck_of_next`: what ingestion and the workers wait for when time passes.
* `run_isSome`: a run that is carried out gets to a result unless the feed goes quiet and the signal
  is not raised.
-/

namespace TxRelay.Relay

/-! ## Runs by a rule -/

/-- A relay gets from a state to another by moves that a rule allows. -/
inductive RunBy (rule : State → Move → Prop) (s : State) : List Move → State → Prop
  | start : RunBy rule s [] s
  | next {moves t m u} (run : RunBy rule s moves t) (allowed : rule t m)
      (move : t.after m = some u) : RunBy rule s (moves ++ [m]) u

namespace RunBy

variable {rule weaker : State → Move → Prop} {s t u : State} {moves more : List Move}

theorem run (h : RunBy rule s moves t) : Run s moves t := by
  induction h with
  | start => exact .start
  | next _ _ move ih => exact .next ih move

/-- What the moves that the rule allows keep is kept by a run. -/
theorem keeps {P : State → Prop}
    (step : ∀ {moves t m u}, RunBy rule s moves t → P t → rule t m → t.after m = some u → P u)
    (h : RunBy rule s moves t) (start : P s) : P t := by
  induction h with
  | start => exact start
  | next run allowed move ih => exact step run ih allowed move

theorem mono (h : RunBy rule s moves t) (le : ∀ s m, rule s m → weaker s m) :
    RunBy weaker s moves t := by
  induction h with
  | start => exact .start
  | next _ allowed move ih => exact .next ih (le _ _ allowed) move

theorem single {m : Move} (allowed : rule s m) (move : s.after m = some t) : RunBy rule s [m] t :=
  .next .start allowed move

theorem append (first : RunBy rule s moves t) (second : RunBy rule t more u) :
    RunBy rule s (moves ++ more) u := by
  induction second with
  | start => rw [List.append_nil]; exact first
  | next _ allowed move ih => rw [← List.append_assoc]; exact .next ih allowed move

/-- A run that gets out of what was true at its start does so with one of its moves. -/
theorem cut {P : State → Prop} (run : RunBy rule s moves t) (start : P s) (out : ¬ P t) :
    ∃ before m after u v, moves = before ++ m :: after ∧ RunBy rule s before u ∧ P u ∧ rule u m ∧
      u.after m = some v ∧ ¬ P v ∧ RunBy rule v after t := by
  induction run with
  | start => exact absurd start out
  | @next moves u m v run allowed move ih =>
    by_cases stays : P u
    · exact ⟨moves, m, [], u, v, rfl, run, stays, allowed, move, out, .start⟩
    · obtain ⟨before, m', after, u', v', rfl, first, inside, allowed', move', leaves, rest⟩ := ih stays
      refine ⟨before, m', after ++ [m], u', v', ?_, first, inside, allowed', move', leaves,
        rest.next allowed move⟩
      rw [List.append_assoc, List.cons_append]

end RunBy

/-! ## Virtual time -/

/-- The signal has to be raised from outside at this moment. -/
def State.Due (s : State) (signalAt : Option ℕ) : Prop :=
  signalAt = some s.now ∧ s.signal = false

/-- The moves that can be made in virtual time, if the signal is raised from outside at a moment. -/
def Prompt (signalAt : Option ℕ) (s : State) : Move → Prop
  | .task _ => True
  | .pass moment =>
    s.move? = none ∧ s.supervisor.result = none ∧ ¬ s.Due signalAt ∧
      s.nextMoment? signalAt = some moment
  | .raise => s.Due signalAt

/-- When no task is found to step, none can. -/
theorem step_of_move? {s : State} (h : s.move? = none) (task : Task) : s.step task = none := by
  have htasks := List.findSome?_eq_none_iff.1 h
  cases task with
  | ingestion => exact htasks _ (by simp [State.tasks])
  | supervisor => exact htasks _ (by simp [State.tasks])
  | worker index =>
    by_cases hindex : index < s.workers.length
    · exact htasks _ (by simp [State.tasks, hindex])
    · have hnone : s.workers[index]? = none := List.getElem?_eq_none_iff.2 (not_lt.1 hindex)
      simp [State.step, State.stepWorker, hnone]

/-- Without a moment for it the signal is not raised from outside. -/
theorem RunBy.calm {s t : State} {moves : List Move} (h : RunBy (Prompt none) s moves t) :
    .raise ∉ moves := by
  induction h with
  | start => simp
  | @next moves t m u _ allowed _ ih =>
    have hne : m ≠ .raise := by
      rintro rfl
      cases allowed.1
    simpa [ih] using hne.symm

/-- The next moment is the first of those that are still to come. -/
theorem nextMoment_le {now next moment : ℕ} {moments : List (Option ℕ)}
    (h : nextMoment now moments = some next) (awaited : some moment ∈ moments)
    (later : now < moment) : next ≤ moment := by
  obtain ⟨-, hle⟩ := List.min?_eq_some_iff.1 h
  exact hle moment (List.mem_filterMap.2 ⟨some moment, awaited, by simp [later]⟩)

/-! ## What keeps time from passing -/

section Stuck

variable {s : State} {signalAt : Option ℕ} {moment : ℕ}

/-- A worker that does not step although it has requests calls its agent. -/
theorem calling_of_step {w : Worker} {now : ℕ} {closed : Bool}
    (stuck : w.step now false closed = none) (queue : w.queue ≠ []) (opened : w.released = false) :
    ∃ request finish outcome, w.activity = .calling request finish outcome := by
  cases hactivity : w.activity with
  | idle => simp [Worker.step, hactivity] at stuck
  | waiting =>
    obtain ⟨request, rest, hqueue⟩ := List.exists_cons_of_ne_nil queue
    simp [Worker.step, hactivity, hqueue] at stuck
  | calling request finish outcome => exact ⟨request, finish, outcome, rfl⟩
  | stopped | crashed => simp [Worker.released, hactivity] at opened

/-- What ingestion waits for when it does not step. -/
inductive Held (s : State) : Prop
  | pause {finish} (paused : s.ingestion.activity = .pausing finish)
  | full {request index w} (placing : s.ingestion.activity = .placing request index)
    (worker : s.workers[index]? = some w) (opened : w.released = false)
    (full : s.setup.room ≤ w.queue.length)
  | ended (closed : s.closed = true)

theorem held_of_stuck (quiet : s.signal = false) (noisy : .quiet ∉ s.ingestion.feed)
    (stuck : s.stepIngestion = none) : Held s := by
  cases hactivity : s.ingestion.activity with
  | pulling =>
    simp only [State.stepIngestion, hactivity, quiet, Bool.false_eq_true, if_false] at stuck
    unfold State.pull at stuck
    split at stuck
    · cases stuck
    · cases stuck
    · cases stuck
    · cases stuck
    next hfeed => exact absurd (by rw [hfeed]; exact List.mem_cons_self) noisy
  | pausing finish => exact .pause hactivity
  | placing request index =>
    cases worker : s.workers[index]? with
    | none => simp [State.stepIngestion, hactivity, worker] at stuck
    | some w =>
      cases opened : w.released with
      | true => simp [State.stepIngestion, hactivity, worker, quiet, State.place, opened] at stuck
      | false =>
        refine .full hactivity worker opened ?_
        simpa [State.stepIngestion, hactivity, worker, quiet, State.place, opened] using stuck
  | ended => exact .ended (closed_iff.2 hactivity)

/-- No task of a relay can step, and none waits for a moment before some moment. -/
structure Stuck (s : State) (moment : ℕ) : Prop where
  ingestion : s.stepIngestion = none
  worker : ∀ {index : ℕ} {w : Worker}, s.workers[index]? = some w →
    w.step s.now s.signal s.closed = none
  pause : ∀ {finish}, s.ingestion.activity = .pausing finish → moment ≤ finish
  call : ∀ {index : ℕ} {w : Worker}, s.workers[index]? = some w →
    ∀ {request finish outcome}, w.activity = .calling request finish outcome → moment ≤ finish

/-- When no task can step, none waits for a moment before the next. -/
theorem stuck_of_next (quiet : s.signal = false) (still : ∀ task, s.step task = none)
    (next : s.nextMoment? signalAt = some moment) : Stuck s moment := by
  have hingestion : s.stepIngestion = none := still .ingestion
  have hworker {index : ℕ} {w : Worker} (worker : s.workers[index]? = some w) :
      w.step s.now s.signal s.closed = none := by
    have hstep := still (.worker index)
    cases hnext : w.step s.now s.signal s.closed with
    | none => rfl
    | some next => simp [State.step, State.stepWorker, worker, hnext] at hstep
  refine ⟨hingestion, hworker, ?_, ?_⟩
  · intro finish paused
    refine nextMoment_le next (List.mem_cons_of_mem _ ?_) ?_
    · simp [State.feedDeadline?, paused]
    · simpa [State.stepIngestion, paused, quiet] using hingestion
  · intro index w worker request finish outcome calling
    refine nextMoment_le next (List.mem_cons_of_mem _ (List.mem_cons_of_mem _ ?_)) ?_
    · refine List.mem_map.2 ⟨w, List.mem_of_getElem? worker, ?_⟩
      simp [Worker.deadline?, calling]
    · simpa [Worker.step, calling] using hworker worker

end Stuck

/-! ## Going on in virtual time -/

section Remaining

variable {s t : State} {signalAt : Option ℕ} {moment : ℕ}

/-- A bound for the steps that a relay may still take and the moments that may still come. -/
def State.remaining (s : State) (signalAt : Option ℕ) : ℕ :=
  2 * s.work + toCome s.now (signalAt :: s.moments)

theorem toCome_cons_le (now : ℕ) (moment : Option ℕ) (moments : List (Option ℕ)) :
    toCome now (moment :: moments) ≤ toCome now moments + 1 := by
  unfold toCome
  rw [List.countP_cons]
  split_ifs <;> omega

theorem step_remaining (signalAt : Option ℕ) (register : Register s) {task : Task}
    (step : s.step task = some t) :
    t.remaining signalAt < s.remaining signalAt := by
  have hwork := step_lt register step
  obtain ⟨now, index, moment, hmoments⟩ :=
    moments_of_happens (happens_of_after (m := .task task) step)
  have hpending := toCome_set_le s.now (signalAt :: s.moments) (index + 1) moment
  rw [List.set_cons_succ, ← hmoments] at hpending
  rw [State.remaining, State.remaining, now]
  omega

theorem pass_remaining (next : s.nextMoment? signalAt = some moment) :
    State.remaining { s with now := moment } signalAt < s.remaining signalAt := by
  have fewer : toCome moment (signalAt :: s.moments) < toCome s.now (signalAt :: s.moments) :=
    toCome_lt next le_rfl
  exact Nat.add_lt_add_left fewer _

/-- Without a result the relay waits for a moment when no task can step, unless the feed goes quiet
and the signal is not raised. -/
theorem nextMoment?_ne_none (register : Register s) (stuck : s.move? = none)
    (busy : s.supervisor.result = none) (undue : ¬ s.Due signalAt)
    (spur : s.signal = true ∨ .quiet ∉ s.ingestion.feed ∨ ∃ due, signalAt = some due ∧ s.now ≤ due) :
    s.nextMoment? signalAt ≠ none := by
  have awaited {moment : ℕ} (mem : some moment ∈ signalAt :: s.moments) (later : s.now < moment) :
      s.nextMoment? signalAt ≠ none := by
    intro empty
    change nextMoment s.now (signalAt :: s.moments) = none at empty
    have hmem : moment ∈ (signalAt :: s.moments).filterMap fun m => m.filter (s.now < ·) :=
      List.mem_filterMap.2 ⟨some moment, mem, by simp [later]⟩
    rw [List.min?_eq_none_iff.1 empty] at hmem
    cases hmem
  have going (spur : s.signal = true ∨ .quiet ∉ s.ingestion.feed) :
      s.nextMoment? signalAt ≠ none := by
    obtain ⟨t, goes⟩ := goes_on register busy spur
    cases goes with
    | task task step => rw [step_of_move? stuck task] at step; cases step
    | @wait next moment ahead =>
      have hmem := List.min?_mem ahead
      simp only [List.mem_filterMap, Option.filter_eq_some_iff, decide_eq_true_eq] at hmem
      obtain ⟨_, hmem, rfl, later⟩ := hmem
      rcases List.mem_cons.1 hmem with hnone | hmem
      · cases hnone
      · exact awaited (List.mem_cons_of_mem _ hmem) later
  rcases spur with raised | noisy | ⟨due, rfl, le⟩
  · exact going (.inl raised)
  · exact going (.inr noisy)
  · cases hsignal : s.signal with
    | true => exact going (.inl hsignal)
    | false =>
      have hne : due ≠ s.now := fun h => undue ⟨congrArg some h, hsignal⟩
      exact awaited List.mem_cons_self (by omega)

end Remaining

/-! ## The runs that are carried out -/

section RunFrom

variable {s t : State} {signalAt : Option ℕ}

/-- The signal has been raised if its moment has come. -/
def State.Settled (s : State) (signalAt : Option ℕ) : Prop :=
  ∀ moment, signalAt = some moment → moment ≤ s.now → s.signal = true

theorem now_of_step {task : Task} (step : s.step task = some t) : t.now = s.now :=
  (moments_of_happens (happens_of_after (m := .task task) step)).1

theorem Settled.step {task : Task} (h : s.Settled signalAt) (step : s.step task = some t) :
    t.Settled signalAt := by
  intro moment hmoment le
  rw [now_of_step step] at le
  exact (happens_of_after (m := .task task) step).signal (h moment hmoment le)

theorem Settled.passTo (s : State) (signalAt : Option ℕ) (moment : ℕ) :
    (s.passTo signalAt moment).Settled signalAt := by
  rintro due rfl le
  have raised : Worker.raisedBy (some due) moment = true := decide_eq_true le
  simp [State.passTo, raised]

theorem passTo_of_same {moment : ℕ}
    (same : (s.signal || Worker.raisedBy signalAt moment) = s.signal) :
    s.passTo signalAt moment = { s with now := moment } := by
  rw [State.passTo, same]

/-- Time passes up to the next moment, and the signal is raised if that is its moment. -/
theorem prompt_passTo (h : s.Settled signalAt) (stuck : s.move? = none)
    (busy : s.supervisor.result = none) {moment : ℕ}
    (next : s.nextMoment? signalAt = some moment) :
    ∃ moves, RunBy (Prompt signalAt) s moves (s.passTo signalAt moment) := by
  have later : s.now < moment := now_lt_of_nextMoment next
  have undue : ¬ s.Due signalAt := by
    rintro ⟨hmoment, quiet⟩
    rw [h s.now hmoment le_rfl] at quiet
    cases quiet
  have first : RunBy (Prompt signalAt) s [.pass moment] { s with now := moment } :=
    .single (m := .pass moment) ⟨stuck, busy, undue, next⟩ (if_pos later.le)
  cases hsignal : s.signal with
  | true =>
    rw [passTo_of_same (by rw [hsignal, Bool.true_or])]
    exact ⟨_, first⟩
  | false =>
    cases raised : Worker.raisedBy signalAt moment with
    | false =>
      rw [passTo_of_same (by rw [raised, Bool.or_false])]
      exact ⟨_, first⟩
    | true =>
      -- the signal is raised at this very moment, since time does not pass beyond it
      obtain ⟨due, rfl, le⟩ := (Option.any_eq_true _ _).1 raised
      have hlater : s.now < due := by
        by_contra hnot
        rw [h due rfl (not_lt.1 hnot)] at hsignal
        cases hsignal
      have hle := nextMoment_le next List.mem_cons_self hlater
      obtain rfl : moment = due := le_antisymm hle (by simpa using le)
      have same : s.passTo (some moment) moment = { s with now := moment, signal := true } := by
        rw [State.passTo, raised, Bool.or_true]
      have second : RunBy (Prompt (some moment)) { s with now := moment } [.raise]
          { s with now := moment, signal := true } := .single (m := .raise) ⟨rfl, hsignal⟩ rfl
      rw [same]
      exact ⟨_, first.append second⟩

/-- The runs that are carried out are runs in virtual time. -/
theorem prompt_runFrom (fuel : ℕ) (s : State) (h : s.Settled signalAt) :
    ∃ moves, RunBy (Prompt signalAt) s moves (s.runFrom signalAt fuel) := by
  induction fuel generalizing s with
  | zero => exact ⟨[], .start⟩
  | succ fuel ih =>
    rw [State.runFrom]
    split
    next next hmove =>
      obtain ⟨task, -, step⟩ := List.exists_of_findSome?_eq_some hmove
      obtain ⟨moves, run⟩ := ih next (Settled.step h step)
      exact ⟨_, (RunBy.single (m := .task task) trivial step).append run⟩
    next hstuck =>
      split_ifs with done
      · exact ⟨[], .start⟩
      split
      next moment hnext =>
        have busy : s.supervisor.result = none := by simpa using done
        obtain ⟨first, run₁⟩ := prompt_passTo h hstuck busy hnext
        obtain ⟨second, run₂⟩ := ih _ (Settled.passTo s signalAt moment)
        exact ⟨_, run₁.append run₂⟩
      next => exact ⟨[], .start⟩

theorem Settled.runFrom (fuel : ℕ) (h : s.Settled signalAt) :
    (s.runFrom signalAt fuel).Settled signalAt := by
  induction fuel generalizing s with
  | zero => exact h
  | succ fuel ih =>
    rw [State.runFrom]
    split
    next next hmove =>
      obtain ⟨task, -, step⟩ := List.exists_of_findSome?_eq_some hmove
      exact ih (Settled.step h step)
    next =>
      split_ifs
      · exact h
      split
      next moment _ => exact ih (Settled.passTo s signalAt moment)
      next => exact h

/-- No task can step, and there is a result or nothing to wait for. -/
def State.Over (s : State) (signalAt : Option ℕ) : Prop :=
  s.move? = none ∧ (s.supervisor.result.isSome = true ∨ s.nextMoment? signalAt = none)

/-- A relay that is carried out for long enough gets to a result, or waits for nothing any more. -/
theorem runFrom_over {setup : Setup} {signal : Bool} {moves : List Move} (fuel : ℕ)
    (run : Run (.start setup signal) moves s) (enough : s.remaining signalAt < fuel) :
    (s.runFrom signalAt fuel).Over signalAt := by
  induction fuel generalizing s moves with
  | zero => omega
  | succ fuel ih =>
    rw [State.runFrom]
    split
    next next hmove =>
      obtain ⟨task, -, step⟩ := List.exists_of_findSome?_eq_some hmove
      have hlt := step_remaining signalAt (register_of_run run) step
      exact ih (run.append (.single (m := .task task) step)) (by omega)
    next hstuck =>
      split_ifs with done
      · exact ⟨hstuck, .inl done⟩
      split
      next moment hnext =>
        obtain ⟨_, further, -⟩ := run_passTo (now_lt_of_nextMoment hnext).le signalAt
        have hlt : (s.passTo signalAt moment).remaining signalAt < s.remaining signalAt :=
          pass_remaining hnext
        exact ih (run.append further) (by omega)
      next hnone => exact ⟨hstuck, .inr hnone⟩

theorem runFrom_of_over (h : s.Over signalAt) (fuel : ℕ) : s.runFrom signalAt fuel = s := by
  obtain ⟨stuck, done⟩ := h
  cases fuel with
  | zero => rfl
  | succ fuel =>
    rw [State.runFrom, stuck]
    dsimp only
    split_ifs with result
    · rfl
    · rw [done.resolve_left result]

theorem runFrom_add (first second : ℕ) (s : State) :
    s.runFrom signalAt (first + second) = (s.runFrom signalAt first).runFrom signalAt second := by
  induction first generalizing s with
  | zero => rw [Nat.zero_add]; rfl
  | succ first ih =>
    rw [Nat.succ_add, State.runFrom, State.runFrom]
    split
    next next _ => exact ih next
    next stuck =>
      split_ifs with result
      · exact (runFrom_of_over ⟨stuck, .inl result⟩ _).symm
      split
      next moment _ => exact ih _
      next none => exact (runFrom_of_over ⟨stuck, .inr none⟩ _).symm

/-- For how long a relay is carried out makes no difference once nothing goes on any more. -/
theorem runFrom_eq {fuel other : ℕ} (h : (s.runFrom signalAt fuel).Over signalAt)
    (h' : (s.runFrom signalAt other).Over signalAt) :
    s.runFrom signalAt fuel = s.runFrom signalAt other := by
  rcases le_total fuel other with le | le <;> obtain ⟨more, rfl⟩ := Nat.exists_eq_add_of_le le
  · rw [runFrom_add, runFrom_of_over h]
  · rw [runFrom_add, runFrom_of_over h']

theorem remaining_start (setup : Setup) (signal : Bool) :
    (State.start setup signal).remaining signalAt ≤ 2 * (State.start setup signal).work + 1 := by
  have hpending : toCome 0 (State.start setup signal).moments = 0 := by
    refine List.countP_eq_zero.2 fun moment hmem => ?_
    rcases List.mem_cons.1 hmem with rfl | hmem
    · simp [State.feedDeadline?]
    · obtain ⟨w, hw, rfl⟩ := List.mem_map.1 hmem
      obtain ⟨index, hindex⟩ := List.mem_iff_getElem?.1 hw
      obtain ⟨agent, -, rfl⟩ := worker_start hindex
      simp [Worker.deadline?]
  have hone := toCome_cons_le 0 signalAt (State.start setup signal).moments
  rw [hpending] at hone
  exact Nat.add_le_add_left hone _

theorem run_over (setup : Setup) (signal : Bool) (signalAt : Option ℕ) :
    ((State.start setup signal).run signalAt).Over signalAt :=
  runFrom_over _ .start ((remaining_start setup signal).trans_lt (by omega))

/-- A relay that is carried out gets to a result unless the feed goes quiet and the signal is not
raised. -/
theorem run_isSome {setup : Setup} {signal : Bool}
    (settled : (State.start setup signal).Settled signalAt)
    (spur : .quiet ∉ setup.feed ∨ signalAt ≠ none) :
    ((State.start setup signal).run signalAt).supervisor.result.isSome = true := by
  obtain ⟨moves, run, -⟩ := run_runFrom signalAt
    (2 * (State.start setup signal).work + 3) (.start setup signal)
  have settled := Settled.runFrom (2 * (State.start setup signal).work + 3) settled
  have spent := run_over setup signal signalAt
  rw [State.run] at spent ⊢
  generalize (State.start setup signal).runFrom signalAt _ = t at *
  obtain ⟨stuck, done | empty⟩ := spent
  · exact done
  by_contra unfinished
  have busy : t.supervisor.result = none := by simpa using unfinished
  refine nextMoment?_ne_none (register_of_run run) stuck busy ?_ ?_ empty
  · rintro ⟨hmoment, quiet⟩
    rw [settled t.now hmoment le_rfl] at quiet
    cases quiet
  · rcases spur with noisy | outside
    · exact .inr (.inl fun hmem => noisy (run.feed.subset hmem))
    · obtain ⟨due, rfl⟩ := Option.ne_none_iff_exists'.1 outside
      by_cases le : due ≤ t.now
      · exact .inl (settled due rfl le)
      · exact .inr (.inr ⟨due, rfl, (not_le.1 le).le⟩)

end RunFrom

end TxRelay.Relay
