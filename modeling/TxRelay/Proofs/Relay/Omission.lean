import TxRelay.Proofs.Relay.Confluence
import TxRelay.Proofs.Relay.Fanout

/-!
# Items without a message

An item that has no message is counted and logged, and ingestion goes on at once with the next step of
the feed. So the relay does the same with a feed from which such items are left out, step by step, but
for the steps that skip them. A state is compared with its clean copy, which has not seen any.

Results:
* `clean_step`: a step is the same for the clean copy, and `clean_of_skip`: to skip an item is none.
* `clean_of_run`, `run_of_clean`: runs with such items and without them, in any order of the steps.
* `traceless`: what they come to, for these runs and for the run that is carried out.
-/

namespace TxRelay

namespace Feed

/-- Whether a step is an item that has no message. -/
def Step.isUnconverted : Step → Bool
  | .item i => i.message?.isNone
  | .pause _ | .fail _ | .quiet => false

/-- A feed from which the items are left out that have no message. -/
def clean (steps : List Step) : List Step :=
  steps.filter fun step => !step.isUnconverted

/-- As many steps are left out as there are items that have no message. -/
theorem length_clean_add (steps : List Step) :
    (clean steps).length + unconverted steps = steps.length := by
  induction steps with
  | nil => rfl
  | cons step rest ih =>
    have hcons : unconverted (step :: rest) = unconverted [step] + unconverted rest :=
      unconverted_append [step] rest
    have hstep : unconverted [step] = if step.isUnconverted then 1 else 0 := by
      cases step <;> simp [unconverted, items, Step.item?, Step.isUnconverted]
    rw [hcons, hstep, clean, List.filter_cons]
    cases step.isUnconverted <;> simp only [clean] at ih ⊢ <;> simp <;> omega

theorem unconverted_le (steps : List Step) : unconverted steps ≤ (items steps).length :=
  List.countP_le_length

end Feed

namespace Relay

/-! ## Clean copies -/

/-- The counts, without the items that have no message. -/
def Totals.clean (totals : Totals) : Totals :=
  ⟨totals.received - totals.unconverted, 0, totals.dispatched⟩

def Summary.clean (summary : Summary) : Summary :=
  ⟨summary.totals.clean, summary.workers⟩

/-- The record, without the items that have no message in its counts; none if it is about such an
item. -/
def Record.clean? : Record → Option Record
  | .unconverted _ => none
  | .exhausted received errors => some (.exhausted (received - errors) 0)
  | .finished name totals => some (.finished name totals.clean)
  | record => some record

def TaskEnd.clean : TaskEnd → TaskEnd
  | .ingestion result => .ingestion (result.map Totals.clean)
  | .worker index result => .worker index result

def Supervisor.clean (s : Supervisor) : Supervisor :=
  { s with totals := s.totals.clean, result := s.result.map (·.map Summary.clean) }

def Ingestion.clean (i : Ingestion) : Ingestion :=
  { i with feed := Feed.clean i.feed, totals := i.totals.clean }

/-- How a relay is set up whose feed has no such items. -/
def Setup.clean (setup : Setup) : Setup :=
  { setup with feed := Feed.clean setup.feed }

/-- The relay as it would be if there had not been any such items and none were to come. -/
def State.clean (s : State) : State :=
  { s with
    setup := s.setup.clean
    ingestion := s.ingestion.clean
    ends := s.ends.map TaskEnd.clean
    supervisor := s.supervisor.clean
    log := s.log.filterMap Record.clean? }

/-- Ingestion is about to skip an item. -/
def State.Skipping (s : State) : Prop :=
  s.signal = false ∧ s.ingestion.activity = .pulling ∧
    ∃ item rest error, s.ingestion.feed = .item item :: rest ∧ item.toMessage = .error error

section Steps

variable {s t : State}

theorem clean_record {r q : Record} (h : r.clean? = some q) (s : State) :
    (s.record r).clean = s.clean.record q := by
  simp [State.clean, State.record, h]

theorem clean_endIngestion (s : State) (result : Except RunError Totals) :
    (s.endIngestion result).clean = s.clean.endIngestion (result.map Totals.clean) := by
  simp [State.clean, State.endIngestion, Ingestion.clean, TaskEnd.clean]

theorem clean_goOn (s : State) (activity : Activity) (feed : List Feed.Step) :
    (s.goOn activity feed).clean = s.clean.goOn activity (Feed.clean feed) := rfl

/-- An item that is skipped leaves nothing but its count and its record. -/
theorem clean_skip (s : State) (error : ConversionError) : (s.skip error).clean = s.clean := by
  simp [State.clean, State.skip, State.record, Ingestion.clean, Totals.clean, Record.clean?]

theorem clean_tag (counted : s.ingestion.totals.unconverted ≤ s.ingestion.totals.received)
    (message : Message) : (s.tag message).clean = s.clean.tag message := by
  have received : s.ingestion.totals.received + 1 - s.ingestion.totals.unconverted =
      s.ingestion.totals.received - s.ingestion.totals.unconverted + 1 := by omega
  simp [State.clean, State.tag, State.record, Ingestion.clean, Totals.clean, Record.clean?,
    Setup.clean, received]

theorem clean_push (s : State) (request : Request) (index : ℕ) (w : Worker) :
    (s.push request index w).clean = s.clean.push request index w := rfl

theorem clean_hear (s : State) (error : RunError) : (s.hear error).clean = s.clean.hear error := by
  cases first : s.supervisor.error with
  | none =>
    cases hcancelled : error.isCancelled <;>
      simp [State.hear, State.clean, State.record, Supervisor.clean, Record.clean?, first, hcancelled]
  | some e =>
    simp [State.hear, State.clean, State.record, Supervisor.clean, Record.clean?, first]

theorem clean_join (s : State) (e : TaskEnd) : (s.join e).clean = s.clean.join e.clean := by
  cases e with
  | ingestion result =>
    cases result with
    | ok totals => rfl
    | error error => exact clean_hear s error
  | worker index result =>
    cases result with
    | ok stats => rfl
    | error error => exact clean_hear s error

theorem clean_conclude (s : State) : s.conclude.clean = s.clean.conclude := by
  cases first : s.supervisor.error with
  | none =>
    simp [State.conclude, State.clean, State.record, Supervisor.clean, Record.clean?, first,
      Except.map, Summary.clean, Setup.clean]
  | some e =>
    simp [State.conclude, State.clean, State.record, Supervisor.clean, Record.clean?, first,
      Except.map, Setup.clean]

theorem clean_setWorker (s : State) (index : ℕ) (w : Worker) :
    (s.setWorker index w).clean = s.clean.setWorker index w := by
  have ends : (workerEnds index w).map TaskEnd.clean = workerEnds index w := by
    unfold workerEnds
    cases workerEnd? w <;> rfl
  simp [State.clean, State.setWorker, ends]

theorem clean_stepWorker (s : State) (index : ℕ) :
    s.clean.stepWorker index = (s.stepWorker index).map State.clean := by
  have workers : s.clean.workers = s.workers := rfl
  have closed : s.clean.closed = s.closed := rfl
  simp only [State.stepWorker, workers, closed]
  cases s.workers[index]? with
  | none => rfl
  | some w =>
    change (w.step s.now s.signal s.closed).bind _ = _
    cases h : w.step s.now s.signal s.closed with
    | none => simp [h]
    | some next => simp [h, clean_setWorker]

theorem stepSupervisor_of_cons {e : TaskEnd} {rest : List TaskEnd}
    (busy : s.supervisor.result = none) (front : s.ends = e :: rest) :
    s.stepSupervisor =
      some ({ s with ends := rest, supervisor.joined := s.supervisor.joined + 1 }.join e) := by
  unfold State.stepSupervisor
  split
  next r h => cases busy.symm.trans h
  next =>
    split
    next e' rest' h => cases front.symm.trans h; rfl
    next h => cases front.symm.trans h

theorem clean_stepSupervisor (s : State) :
    s.clean.stepSupervisor = s.stepSupervisor.map State.clean := by
  cases result : s.supervisor.result with
  | some r => simp [State.stepSupervisor, State.clean, Supervisor.clean, result]
  | none =>
    have busy : s.clean.supervisor.result = none := by
      simp [State.clean, Supervisor.clean, result]
    cases ends : s.ends with
    | nil =>
      have none : s.clean.ends = [] := by simp [State.clean, ends]
      have joined : s.clean.supervisor.joined = s.supervisor.joined := rfl
      have count : s.clean.taskCount = s.taskCount := rfl
      simp only [State.stepSupervisor, busy, result, none, ends, joined, count]
      split_ifs
      · rw [Option.map_some, clean_conclude]
      · rfl
    | cons e rest =>
      have front : s.clean.ends = e.clean :: rest.map TaskEnd.clean := by simp [State.clean, ends]
      rw [stepSupervisor_of_cons busy front, stepSupervisor_of_cons result ends, Option.map_some,
        clean_join]
      rfl

theorem clean_pull (counted : s.ingestion.totals.unconverted ≤ s.ingestion.totals.received)
    (ready : s.ingestion.activity = .pulling) (quiet : s.signal = false) (unskipped : ¬ s.Skipping) :
    s.clean.pull = s.pull.map State.clean := by
  unfold State.pull
  cases front : s.ingestion.feed with
  | nil =>
    have front' : s.clean.ingestion.feed = [] := by
      simp [State.clean, Ingestion.clean, Feed.clean, front]
    simp only [front', Option.map_some, clean_endIngestion]
    rw [clean_record (q := .exhausted s.clean.ingestion.totals.received 0) rfl]
    rfl
  | cons step rest =>
    have front' (kept : step.isUnconverted = false) :
        s.clean.ingestion.feed = step :: Feed.clean rest := by
      simp [State.clean, Ingestion.clean, Feed.clean, front, kept]
    cases step with
    | item item =>
      cases good : item.toMessage with
      | error error => exact absurd ⟨quiet, ready, item, rest, error, front, good⟩ unskipped
      | ok message =>
        have kept : (Feed.Step.item item).isUnconverted = false := by
          rw [Feed.Step.isUnconverted, Feed.message?_of_ok good]; rfl
        simp only [front' kept, State.take, good, Option.map_some]
        rw [clean_tag (by exact counted)]
        rfl
    | pause duration => simp only [front' rfl]; rfl
    | fail error =>
      simp only [front' rfl, Option.map_some, clean_endIngestion]
      rw [clean_record (q := .feedFailed error) rfl, clean_goOn]
      rfl
    | quiet => simp only [front' rfl]; rfl

theorem clean_place (s : State) (request : Request) (index : ℕ) (w : Worker) :
    s.clean.place request index w = (s.place request index w).map State.clean := by
  have room : s.clean.setup.room = s.setup.room := rfl
  simp only [State.place, room]
  split_ifs
  · rw [Option.map_some, clean_endIngestion]
    rfl
  · rw [Option.map_some, clean_push]
  · rfl

theorem clean_stepIngestion (counted : s.ingestion.totals.unconverted ≤ s.ingestion.totals.received)
    (unskipped : ¬ s.Skipping) : s.clean.stepIngestion = s.stepIngestion.map State.clean := by
  have cancel : s.clean.endIngestion (.error .cancelled) =
      (s.endIngestion (.error .cancelled)).clean :=
    (clean_endIngestion s (.error .cancelled)).symm
  have activity : s.clean.ingestion.activity = s.ingestion.activity := rfl
  have signal : s.clean.signal = s.signal := rfl
  have now : s.clean.now = s.now := rfl
  have workers : s.clean.workers = s.workers := rfl
  simp only [State.stepIngestion, activity, signal, now, workers, cancel]
  cases hactivity : s.ingestion.activity with
  | pulling =>
    cases hsignal : s.signal with
    | true => rfl
    | false => exact clean_pull counted hactivity hsignal unskipped
  | pausing finish =>
    dsimp only
    split_ifs <;> rfl
  | placing request index =>
    dsimp only
    cases s.workers[index]? with
    | none => rfl
    | some w =>
      cases s.signal with
      | true => rfl
      | false => exact clean_place s request index w
  | ended => rfl

/-- Every step is the same for the clean copy, but for the one that skips an item. -/
theorem clean_step (counted : s.ingestion.totals.unconverted ≤ s.ingestion.totals.received)
    {task : Task} (unskipped : task = .ingestion → ¬ s.Skipping) :
    s.clean.step task = (s.step task).map State.clean := by
  cases task with
  | ingestion => exact clean_stepIngestion counted (unskipped rfl)
  | worker index => exact clean_stepWorker s index
  | supervisor => exact clean_stepSupervisor s

/-- To skip an item changes nothing for the clean copy. -/
theorem clean_of_skip (skipping : s.Skipping) :
    ∃ t, s.step .ingestion = some t ∧ t.clean = s.clean ∧
      t.ingestion.feed.length < s.ingestion.feed.length := by
  obtain ⟨quiet, ready, item, rest, error, front, bad⟩ := skipping
  refine ⟨_, (IngestionStep.skip ready quiet front bad).eq quiet, ?_, ?_⟩
  · have left : Feed.clean rest = Feed.clean s.ingestion.feed := by
      simp [front, Feed.clean, Feed.Step.isUnconverted, Feed.message?_of_error bad]
    rw [clean_skip, clean_goOn, left, ← ready]
    rfl
  · rw [front]
    exact Nat.lt_succ_self _

/-- More items have been counted than have no message. -/
theorem counted_of_run {setup : Setup} {signal : Bool} {moves : List Move}
    (run : Run (.start setup signal) moves s) :
    s.ingestion.totals.unconverted ≤ s.ingestion.totals.received := by
  obtain ⟨taken, intake⟩ := intake_of_run run
  rw [intake.unconverted, intake.received]
  exact Feed.unconverted_le taken

end Steps

/-! ## Runs -/

section Runs

variable {setup : Setup} {signal : Bool} {signalAt : Option ℕ} {s t u : State} {moves more : List Move}
  {m : Move}

theorem not_skipping (stuck : s.move? = none) : ¬ s.Skipping := by
  intro skipping
  obtain ⟨t, step, -⟩ := clean_of_skip skipping
  rw [step_of_move? stuck] at step
  cases step

theorem clean_move? (counted : s.ingestion.totals.unconverted ≤ s.ingestion.totals.received)
    (unskipped : ¬ s.Skipping) : s.clean.move? = s.move?.map State.clean := by
  have tasks : s.clean.tasks = s.tasks := rfl
  have step : s.clean.step = fun task => (s.step task).map State.clean :=
    funext fun task => clean_step counted fun _ => unskipped
  rw [State.move?, State.move?, tasks, step, List.map_findSome?]
  rfl

/-- A move is the same for the clean copy unless it skips an item. -/
theorem clean_after (counted : s.ingestion.totals.unconverted ≤ s.ingestion.totals.received)
    (unskipped : m = .task .ingestion → ¬ s.Skipping) :
    s.clean.after m = (s.after m).map State.clean := by
  cases m with
  | task task => exact clean_step counted fun ingestion => unskipped (congrArg Move.task ingestion)
  | pass moment =>
    have now : s.clean.now = s.now := rfl
    simp only [State.after, now]
    split_ifs <;> rfl
  | raise => rfl

/-- It can be made in virtual time for the clean copy if it can be for the relay, unless there is an
item to skip before time passes. -/
theorem clean_prompt (counted : s.ingestion.totals.unconverted ≤ s.ingestion.totals.received)
    (unskipped : ∀ moment, m = .pass moment → ¬ s.Skipping) :
    Prompt signalAt s.clean m ↔ Prompt signalAt s m := by
  cases m with
  | task | raise => exact Iff.rfl
  | pass moment =>
    have stuck : s.clean.move? = none ↔ s.move? = none := by
      rw [clean_move? counted (unskipped moment rfl), Option.map_eq_none_iff]
    have busy : s.clean.supervisor.result = none ↔ s.supervisor.result = none :=
      Option.map_eq_none_iff
    exact and_congr stuck (and_congr busy Iff.rfl)

/-- A run is a run without the items that have no message, if the moves are left out that skip them.
-/
theorem clean_of_run (run : RunBy (Prompt signalAt) (.start setup signal) moves t) :
    ∃ fewer, fewer.Sublist moves ∧
      RunBy (Prompt signalAt) (.start setup.clean signal) fewer t.clean := by
  induction run with
  | start => exact ⟨[], .slnil, .start⟩
  | @next moves s m t run allowed move ih =>
    obtain ⟨fewer, sublist, clean⟩ := ih
    have counted := counted_of_run run.run
    by_cases skips : m = .task .ingestion ∧ s.Skipping
    · obtain ⟨rfl, skipping⟩ := skips
      obtain ⟨v, step, same, -⟩ := clean_of_skip skipping
      obtain rfl : v = t := Option.some.inj (step.symm.trans move)
      rw [same]
      exact ⟨fewer, sublist.trans (List.sublist_append_left _ _), clean⟩
    · refine ⟨fewer ++ [m], sublist.append_right _, clean.next (m := m) ?_ ?_⟩
      · refine (clean_prompt counted ?_).2 allowed
        rintro moment rfl
        exact not_skipping allowed.1
      · rw [clean_after counted (not_and.1 skips), move]
        rfl

/-- The items at the front of the feed that have no message are skipped at once. -/
theorem exists_unskipped (signalAt : Option ℕ) (s : State) :
    ∃ moves t, RunBy (Prompt signalAt) s moves t ∧ t.clean = s.clean ∧ ¬ t.Skipping := by
  induction hlength : s.ingestion.feed.length using Nat.strong_induction_on generalizing s with
  | h length ih =>
    by_cases skipping : s.Skipping
    · obtain ⟨u, step, same, shorter⟩ := clean_of_skip skipping
      obtain ⟨moves, t, run, same', unskipped⟩ := ih _ (hlength ▸ shorter) u rfl
      have first : RunBy (Prompt signalAt) s [.task .ingestion] u := .single trivial step
      exact ⟨_, t, first.append run, same'.trans same, unskipped⟩
    · exact ⟨[], s, .start, rfl, skipping⟩

/-- A run without the items that have no message is a run with them, if they are skipped before the
next move. -/
theorem run_of_clean (run : RunBy (Prompt signalAt) (.start setup.clean signal) moves u) :
    ∃ more t, moves.Sublist more ∧ RunBy (Prompt signalAt) (.start setup signal) more t ∧
      t.clean = u := by
  induction run with
  | start => exact ⟨[], _, .slnil, .start, rfl⟩
  | @next moves v m u run allowed move ih =>
    obtain ⟨more, s, sublist, full, rfl⟩ := ih
    obtain ⟨skips, t, skipped, same, unskipped⟩ := exists_unskipped signalAt s
    have reached := full.append skipped
    have counted := counted_of_run reached.run
    rw [← same] at allowed move
    rw [clean_after counted fun _ => unskipped, Option.map_eq_some_iff] at move
    obtain ⟨w, step, rfl⟩ := move
    have allowed := (clean_prompt counted fun _ _ => unskipped).1 allowed
    refine ⟨more ++ skips ++ [m], w, ?_, reached.next allowed step, rfl⟩
    exact (sublist.trans (List.sublist_append_left _ _)).append_right _

theorem clean_runFrom (signalAt : Option ℕ) (fuel : ℕ) (run : Run (.start setup signal) moves s) :
    ∃ less, (s.runFrom signalAt fuel).clean = s.clean.runFrom signalAt less := by
  induction fuel generalizing s moves with
  | zero => exact ⟨0, rfl⟩
  | succ fuel ih =>
    have counted := counted_of_run run
    rw [State.runFrom]
    by_cases skipping : s.Skipping
    · obtain ⟨t, step, same, -⟩ := clean_of_skip skipping
      have move : s.move? = some t := by
        rw [State.move?, State.tasks, List.cons_append, List.findSome?_cons, step]
      obtain ⟨less, h⟩ := ih (run.append (.single (m := .task .ingestion) step))
      rw [move]
      exact ⟨less, by rw [← same]; exact h⟩
    · have move := clean_move? counted skipping
      split
      next next hmove =>
        obtain ⟨task, -, step⟩ := List.exists_of_findSome?_eq_some hmove
        obtain ⟨less, h⟩ := ih (run.append (.single (m := .task task) step))
        rw [hmove, Option.map_some] at move
        refine ⟨less + 1, ?_⟩
        rw [h, State.runFrom, move]
      next hmove =>
        rw [hmove, Option.map_none] at move
        split_ifs with done
        · exact ⟨0, rfl⟩
        split
        next moment hnext =>
          obtain ⟨_, further, -⟩ := run_passTo (now_lt_of_nextMoment hnext).le signalAt
          obtain ⟨less, h⟩ := ih (run.append further)
          have hnext' : s.clean.nextMoment? signalAt = some moment := hnext
          have undone : ¬ s.clean.supervisor.result.isSome = true := by
            simpa [State.clean, Supervisor.clean] using done
          refine ⟨less + 1, ?_⟩
          rw [h, State.runFrom, move]
          simp only [undone, Bool.false_eq_true, if_false, hnext']
          rfl
        next => exact ⟨0, rfl⟩

theorem State.Over.clean (h : s.Over signalAt)
    (counted : s.ingestion.totals.unconverted ≤ s.ingestion.totals.received) :
    s.clean.Over signalAt := by
  obtain ⟨stuck, done⟩ := h
  refine ⟨?_, done.imp_left fun result => ?_⟩
  · rw [clean_move? counted (not_skipping stuck), stuck]
    rfl
  · simpa [State.clean, Supervisor.clean] using result

/-- The run that is carried out without the items that have no message is the one with them, but for
these. -/
theorem clean_run (setup : Setup) (signal : Bool) (signalAt : Option ℕ) :
    ((State.start setup signal).run signalAt).clean =
      (State.start setup.clean signal).run signalAt := by
  obtain ⟨less, h⟩ := clean_runFrom signalAt
    (2 * (State.start setup signal).work + 3) (.start (s := .start setup signal))
  obtain ⟨moves, run, -⟩ := run_runFrom signalAt
    (2 * (State.start setup signal).work + 3) (.start setup signal)
  have spent := (run_over setup signal signalAt).clean (counted_of_run run)
  rw [State.run] at spent ⊢
  rw [h] at spent ⊢
  exact runFrom_eq spent (run_over setup.clean signal signalAt)

end Runs

/-! ## No trace -/

/-- Two states of a relay, with and without the items that have no message, differ in nothing but the
counts and records of these items. -/
structure Traceless (setup : Setup) (t u : State) : Prop where
  /-- The same calls were made at the same times, and came to the same; the logs are the same. -/
  workers : u.workers = t.workers
  now : u.now = t.now
  /-- The records of such items are left out, and the items in the counts of other records. -/
  log : u.log = t.log.filterMap Record.clean?
  /-- The results are of one kind. -/
  result : u.supervisor.result = t.supervisor.result.map (·.map Summary.clean)
  summary : ∀ {summary}, t.supervisor.result = some (.ok summary) →
    ∃ other, u.supervisor.result = some (.ok other) ∧ other.workers = summary.workers ∧
      other.totals.dispatched = summary.totals.dispatched ∧
      other.totals.received + Feed.unconverted setup.feed = summary.totals.received ∧
      other.totals.unconverted + Feed.unconverted setup.feed = summary.totals.unconverted

theorem traceless_clean {setup : Setup} {signal : Bool} {moves : List Move} {t : State}
    (run : Run (.start setup signal) moves t) : Traceless setup t t.clean where
  workers := rfl
  now := rfl
  log := rfl
  result := rfl
  summary {summary} finished := by
    have register := register_of_run run
    have spotless : t.firstError? = none := (register.result_eq finished).2.1 ⟨summary, rfl⟩
    have unconverted := (complete_of_run run finished spotless).intake.unconverted
    have counted := counted_of_run run
    have result : t.clean.supervisor.result = some (.ok summary.clean) := by
      simp [State.clean, Supervisor.clean, finished, Except.map]
    cases register.summary_eq finished spotless
    refine ⟨_, result, rfl, rfl, ?_, ?_⟩ <;> simp only [Summary.clean, Totals.clean] <;> omega

/-- Items that have no message leave no trace but their count and their records: a relay that is fed
without them is started alike, comes to the same in the run that is carried out, and has the same runs
in any order of the steps. -/
theorem traceless (setup : Setup) (signal : Bool) (signalAt : Option ℕ) :
    setup.clean.feed.length + Feed.unconverted setup.feed = setup.feed.length ∧
      launch setup.clean signal = (launch setup signal).map State.clean ∧
      Traceless setup ((State.start setup signal).run signalAt)
        ((State.start setup.clean signal).run signalAt) ∧
      (∀ {moves t}, RunBy (Prompt signalAt) (.start setup signal) moves t →
        ∃ fewer u, fewer.Sublist moves ∧
          RunBy (Prompt signalAt) (.start setup.clean signal) fewer u ∧ Traceless setup t u) ∧
      ∀ {moves u}, RunBy (Prompt signalAt) (.start setup.clean signal) moves u →
        ∃ more t, moves.Sublist more ∧
          RunBy (Prompt signalAt) (.start setup signal) more t ∧ Traceless setup t u := by
  refine ⟨Feed.length_clean_add setup.feed, ?_, ?_, fun run => ?_, fun run => ?_⟩
  · unfold launch
    change (if setup.agents.isEmpty then _ else if greatestRoom < setup.room then _ else _) = _
    split_ifs <;> rfl
  · obtain ⟨moves, run, -⟩ := run_runFrom signalAt
      (2 * (State.start setup signal).work + 3) (.start setup signal)
    rw [← clean_run]
    exact traceless_clean run
  · obtain ⟨fewer, sublist, clean⟩ := clean_of_run run
    exact ⟨fewer, _, sublist, clean, traceless_clean run.run⟩
  · obtain ⟨more, t, sublist, full, rfl⟩ := run_of_clean run
    exact ⟨more, t, sublist, full, traceless_clean full.run⟩

/-- The same relay with a line in front that is no event. -/
def garbledSetup : Setup :=
  { calmSetup with feed := .item (.undecodable 1 (.missingField "transaction")) :: calmSetup.feed }

theorem traceless_garbledSetup :
    let s := State.start garbledSetup false
    let u := State.start garbledSetup.clean false
    Feed.unconverted garbledSetup.feed = 2 ∧ garbledSetup.clean.feed.length = 3 ∧
      Traceless garbledSetup (s.run none) (u.run none) ∧
      (s.run none).supervisor.result =
        some (.ok ⟨⟨4, 2, 4⟩, [⟨"a", 2, 0, 0, 0, 2⟩, ⟨"b", 2, 1, 1, 0, 0⟩]⟩) ∧
      (u.run none).supervisor.result =
        some (.ok ⟨⟨2, 0, 4⟩, [⟨"a", 2, 0, 0, 0, 2⟩, ⟨"b", 2, 1, 1, 0, 0⟩]⟩) := by
  have h := traceless garbledSetup false none
  refine ⟨by decide +kernel, by decide +kernel, h.2.2.1, rfl, rfl⟩

end Relay

end TxRelay
