import TxRelay.Proofs.Command.DryRun
import TxRelay.Proofs.Relay.Lockstep

/-!
# What agents can influence

How a run ends depends on its invocation only, whatever its agents answer and whenever. So does what
each agent receives, as far as the run gets: the bodies of the calls, their identifiers numbered by
first appearance, are the first of one sequence, and all of it if the input can be read to its end. If
it cannot, the requests that are queued then are given up, and how many these are depends on when the
agents have answered, but on nothing else about them.

Results:
* `traffic_eq`: what each agent receives is a beginning of one sequence.
* `unfailed_iff_readable`: a feed fails unless its input can be read to its end.
* `returns_of_keepsTime`: calls that take as long lead to the same traffic, step by step.
* `regardless_of_conduct`: the ending and the traffic of all runs of one invocation.
* `traffic_sways`: the traffic of two runs of an invocation whose input fails.
-/

namespace TxRelay.Command

/-! ## Identifiers by first appearance -/

section Numbering

variable {α : Type} [DecidableEq α]

/-- How many different entries stand before the first appearance of one. -/
def firstAppearance (entries : List α) (entry : α) : ℕ :=
  (entries.take (entries.idxOf entry)).toFinset.card

variable {all : List α}

/-- Where beginnings of one list follow each other, no entry appears before those in front of it in
that list, and none but those. -/
theorem toFinset_take_idxOf (nodup : all.Nodup) {parts : List (List α)}
    (begun : ∀ part ∈ parts, part <+: all) {k : ℕ} (lt : k < all.length)
    (mem : all[k] ∈ parts.flatten) :
    (parts.flatten.take (parts.flatten.idxOf all[k])).toFinset = (all.take k).toFinset := by
  induction parts with
  | nil => cases mem
  | cons part parts ih =>
    have front := List.prefix_iff_eq_take.1 (begun part List.mem_cons_self)
    rw [List.flatten_cons]
    by_cases early : k < part.length
    · -- the first part has the entry, behind those in front of it
      have found : part[k] = all[k] := (begun part List.mem_cons_self).getElem early
      have place : part.idxOf all[k] = k := by
        rw [← found]
        exact (nodup.sublist (begun part List.mem_cons_self).sublist).idxOf_getElem k early
      rw [List.idxOf_append_of_mem (found ▸ List.getElem_mem early), place,
        List.take_append_of_le_length early.le, front, List.take_take, min_eq_left early.le]
    · -- the first part is no longer than what stands in front of the entry
      have late : part.length ≤ k := not_lt.1 early
      have absent : all[k] ∉ part := by
        intro found
        rw [front, List.mem_take_iff_getElem] at found
        obtain ⟨j, hj, same⟩ := found
        have := nodup.getElem_inj_iff.1 same
        omega
      have mem : all[k] ∈ parts.flatten := by
        rw [List.flatten_cons, List.mem_append] at mem
        exact mem.resolve_left absent
      have covered : part.toFinset ⊆ (all.take k).toFinset := by
        intro entry found
        rw [List.mem_toFinset] at found ⊢
        rw [front] at found
        exact (List.take_subset_take_left all late) found
      rw [List.idxOf_append_of_notMem absent, List.take_length_add_append, List.toFinset_append,
        ih (fun part mem => begun part (List.mem_cons_of_mem _ mem)) mem]
      exact Finset.union_eq_right.2 covered

/-- Where beginnings of one list follow each other, the numbers by first appearance are the places in
that list. -/
theorem firstAppearance_flatten (nodup : all.Nodup) {parts : List (List α)}
    (begun : ∀ part ∈ parts, part <+: all) {k : ℕ} (lt : k < all.length)
    (mem : all[k] ∈ parts.flatten) : firstAppearance parts.flatten all[k] = k := by
  rw [firstAppearance, toFinset_take_idxOf nodup begun lt mem,
    List.toFinset_card_of_nodup (nodup.sublist (List.take_sublist k all)), List.length_take,
    min_eq_left lt.le]

end Numbering

/-! ## Traffic -/

/-- The identifiers in the calls of a run, agent by agent. -/
def identifiers (left : Relay.Return) : List String :=
  left.calls.flatten.map (·.request.id)

/-- An identifier with such a number. -/
def numberedId (number : ℕ) : String :=
  "#" ++ toString number

/-- Different numbers make different identifiers. -/
theorem numberedId_injective : Function.Injective numberedId := by
  intro a b same
  have texts : a.repr = b.repr := by simpa [numberedId] using same
  have digits := congrArg String.toList texts
  rw [Nat.toList_repr, Nat.toList_repr] at digits
  calc a = Nat.ofDigitChars 10 (Nat.toDigits 10 a) 0 := Nat.ofDigitChars_ten_toDigits.symm
    _ = Nat.ofDigitChars 10 (Nat.toDigits 10 b) 0 := by rw [digits]
    _ = b := Nat.ofDigitChars_ten_toDigits

/-- A call whose identifier is replaced by its number. -/
def renumbered (ids : List String) (call : Worker.Call) : Worker.Call :=
  { call with request.id := numberedId (firstAppearance ids call.request.id) }

/-- The bodies that each agent received, identifiers numbered by first appearance. -/
def traffic (left : Relay.Return) : List (List String) :=
  left.calls.map fun calls => submissionTexts (calls.map (renumbered (identifiers left)))

theorem length_traffic (left : Relay.Return) :
    (traffic left).map List.length = left.calls.map List.length := by
  simp [traffic, submissionTexts, Run.submissions, Function.comp_def]

/-- The bodies of calls with requests, the first call numbered one. -/
def bodies (requests : List Request) : List String :=
  requests.mapIdx fun index request => Rpc.Call.codec.write (Transport.numberedCall index request)

theorem submissionTexts_eq (calls : List Worker.Call) :
    submissionTexts calls = bodies (calls.map (·.request)) := by
  apply List.ext_getElem
  · simp [submissionTexts, Run.submissions, bodies]
  · intro n _ _
    simp [submissionTexts, Run.submissions, bodies]

theorem bodies_take (count : ℕ) (requests : List Request) :
    bodies (requests.take count) = (bodies requests).take count := by
  apply List.ext_getElem
  · simp [bodies]
  · intro n _ _
    simp [bodies]

section Called

variable {ids : ℕ → String} {feed : List Feed.Step} {left : Relay.Return}

/-- The identifier of the `k`-th request has the number `k`. -/
theorem firstAppearance_identifiers (distinct : Function.Injective ids)
    (called : ∀ calls ∈ left.calls, calls.map (·.request) <+: Relay.requests ids feed)
    {calls : List Worker.Call} (mem : calls ∈ left.calls) {k : ℕ} (lt : k < calls.length) :
    firstAppearance (identifiers left) calls[k].request.id = k := by
  obtain ⟨all, hall⟩ : ∃ all, all = (Relay.requests ids feed).map (·.id) := ⟨_, rfl⟩
  have nodup : all.Nodup := by
    rw [hall, Relay.map_id_requests]
    exact List.nodup_range.map distinct
  have begins {calls : List Worker.Call} (mem : calls ∈ left.calls) :
      calls.map (·.request.id) <+: all := by
    rw [hall]
    simpa [Function.comp_def] using (called calls mem).map (·.id)
  have begun : ∀ part ∈ left.calls.map (·.map (·.request.id)), part <+: all :=
    List.forall_mem_map.2 fun calls mem => begins mem
  have flat : identifiers left = (left.calls.map (·.map (·.request.id))).flatten := by
    rw [identifiers, List.map_flatten]
  have short : k < all.length := by
    have := (begins mem).length_le
    rw [List.length_map] at this
    omega
  have found : calls[k].request.id = all[k] := by
    rw [← (begins mem).getElem (by simpa using lt), List.getElem_map]
  rw [found, flat]
  refine firstAppearance_flatten nodup begun short ?_
  rw [← found]
  exact List.mem_flatten.2 ⟨_, List.mem_map_of_mem mem, List.mem_map_of_mem (List.getElem_mem lt)⟩

/-- The bodies of the calls for the messages of a feed, with their numbers as identifiers. -/
def numberedBodies (feed : List Feed.Step) : List String :=
  bodies (Relay.requests numberedId feed)

/-- Each agent received the first bodies of one sequence, as many as it had calls. -/
theorem traffic_eq (distinct : Function.Injective ids)
    (called : ∀ calls ∈ left.calls, calls.map (·.request) <+: Relay.requests ids feed) :
    traffic left = left.calls.map fun calls => (numberedBodies feed).take calls.length := by
  refine List.map_congr_left fun calls mem => ?_
  have begins := called calls mem
  rw [submissionTexts_eq, numberedBodies, ← bodies_take]
  congr 1
  refine List.ext_getElem ?_ fun k lt lt' => ?_
  · have short := begins.length_le
    simp only [Relay.length_requests, List.length_map, List.length_take] at short ⊢
    omega
  · have inside : k < calls.length := by simpa using lt
    have short : k < (Relay.requests ids feed).length := by
      simp only [Relay.length_requests, List.length_take] at lt' ⊢
      omega
    have number := firstAppearance_identifiers distinct called mem inside
    have message : calls[k].request = (Relay.requests ids feed)[k] := by
      rw [← begins.getElem (by simpa using inside), List.getElem_map]
    simp only [List.getElem_map, List.getElem_take, renumbered, number]
    rw [message]
    simp [Relay.requests, Request.tag]

end Called

/-! ## Readable inputs -/

/-- An input can be read to its end: all of its lines are texts. -/
def Readable (w : World) (input : String) : Prop :=
  ∃ bytes, w.Holds input bytes ∧ ∀ line ∈ Feed.Lines.split bytes, Feed.Lines.IsText line

/-- An input that is opened holds bytes or is a directory. -/
theorem holds_or_directory {w : World} {input : String} {numbered : List Feed.Lines.Numbered}
    (opened : w.open input = .ok numbered) :
    (∃ bytes, w.Holds input bytes) ∨ numbered = [⟨1, .error (.io Files.directoryReason)⟩] := by
  by_cases typed : input = "-"
  · subst typed
    exact .inl ⟨_, .typed⟩
  · rw [World.open, if_neg typed] at opened
    cases found : w.files input with
    | refused reason =>
      rw [found] at opened
      cases opened
    | directory =>
      rw [found] at opened
      cases opened
      exact .inr rfl
    | bytes content => exact .inl ⟨content, .file typed found⟩

/-- A feed fails unless its input can be read to its end. -/
theorem unfailed_iff_readable {w : World} {input : String} {numbered : List Feed.Lines.Numbered}
    (opened : w.open input = .ok numbered) :
    Feed.failure? (numbered.map (·.step)) = none ↔ Readable w input := by
  constructor
  · intro unfailed
    rcases holds_or_directory opened with ⟨bytes, holds⟩ | rfl
    · obtain ⟨report, opened'⟩ := holds.open
      obtain rfl := Except.ok.inj (opened.symm.trans opened')
      rcases Feed.Lines.texts_or_bad (Feed.Lines.split bytes) with
        texts | ⟨before, bad, after, cut, texts, torn⟩
      · exact ⟨bytes, holds, texts⟩
      · obtain ⟨reason, makes⟩ := makes_of_bad report texts torn after
        rw [cut, makes.failure?_steps] at unfailed
        cases unfailed
    · cases unfailed
  · rintro ⟨bytes, holds, texts⟩
    obtain ⟨report, opened'⟩ := holds.open
    obtain rfl := Except.ok.inj (opened.symm.trans opened')
    exact (makes_of_texts report texts).failure?_steps

/-! ## The runs of one invocation -/

/-- What the agents of a run do, and the identifiers that its requests get. -/
structure Conduct where
  /-- What comes back from the calls to each agent. -/
  arrival : ℕ → Endpoint → ℕ → Rpc.Call → Transport.Arrival
  ids : ℕ → String
  distinct : Function.Injective ids

namespace Conduct

/-- The relay of a run with such agents. -/
def setup (c : Conduct) (w : World) (s : Settings) (es : List Endpoint)
    (numbered : List Feed.Lines.Numbered) : Relay.Setup :=
  timedSetup { w with ids := c.ids } s es numbered c.arrival

/-- Each call takes as long with other agents. -/
def KeepsTime (c c' : Conduct) (limit : ℕ) : Prop :=
  ∀ n e index number message,
    (c.arrival n e index (Transport.numberedCall index (.tag c.ids number message))).wait limit =
      (c'.arrival n e index (Transport.numberedCall index (.tag c'.ids number message))).wait limit

/-- The agents of the command itself, which are known by their endpoints. -/
def ofExchange (exchange : Endpoint → ℕ → Rpc.Call → Transport.Arrival) {ids : ℕ → String}
    (distinct : Function.Injective ids) : Conduct where
  arrival _ := exchange
  ids
  distinct

theorem setup_ofExchange (w : World) (s : Settings) (es : List Endpoint)
    (numbered : List Feed.Lines.Numbered)
    (exchange : Endpoint → ℕ → Rpc.Call → Transport.Arrival) {ids : ℕ → String}
    (distinct : Function.Injective ids) :
    (ofExchange exchange distinct).setup w s es numbered =
      Run.setup { w with exchange, ids } s es numbered :=
  timedSetup_exchange { w with exchange, ids } s es numbered

end Conduct

/-- How a run ends, by the failure of its feed. -/
def feedEnding : Option FeedError → Ending
  | none => .success
  | some error => .failure (Run.relayFailure (.feed error))

/-- A run with so many agents has ended in a certain way, and its agents received the beginning of a
certain sequence, or all of it if the input can be read. -/
structure Settles (agents : ℕ) (ending : Ending) (whole : List String) (readable : Prop)
    (left : Relay.Return) : Prop where
  ending : Run.relayEnding left.result = ending
  agents : (traffic left).length = agents
  begun : ∀ received ∈ traffic left, received <+: whole
  complete : readable → ∀ received ∈ traffic left, received = whole

section Ready

variable {w : World} {options : RunOptions} {s : Settings} {es : List Endpoint}
  {numbered : List Feed.Lines.Numbered} {moves : List Relay.Move} {t : Relay.State}
  {left : Relay.Return} {c c' : Conduct}

/-- Whether a run is ready depends neither on what its agents answer nor on its identifiers. -/
theorem Run.Ready.change (ready : Run.Ready w options s es)
    (exchange : Endpoint → ℕ → Rpc.Call → Transport.Arrival) (ids : ℕ → String) :
    Run.Ready { w with exchange, ids } options s es :=
  ⟨ready.merged, ready.valid, ready.addresses, ready.reachable, ready.room, ready.uninterrupted⟩

theorem setup_feed (ready : Run.Ready w options s es) :
    (c.setup w s es numbered).feed = numbered.map (·.step) :=
  timedSetup_feed (ready.change w.exchange c.ids)

/-- At any moment, each agent has received as much of one sequence as it had calls. -/
theorem traffic_of_run (ready : Run.Ready w options s es)
    (run : Relay.Run (.start (c.setup w s es numbered) false) moves t)
    (result : Except RunError Relay.Summary) :
    traffic (Run.leaves result t) =
      (t.workers.map (·.calls.length)).map (numberedBodies (numbered.map (·.step))).take := by
  have called : ∀ calls ∈ (Run.leaves result t).calls,
      calls.map (·.request) <+: Relay.requests c.ids (numbered.map (·.step)) := by
    rw [← setup_feed (c := c) ready]
    exact List.forall_mem_map.2 fun worker mem => Relay.requests_called run mem
  rw [traffic_eq c.distinct called, Run.leaves, List.map_map, List.map_map]
  rfl

theorem settles_of_returns (ready : Run.Ready w options s es)
    (opened : w.open options.input = .ok numbered) (alone : .raise ∉ moves)
    (returns : Relay.Returns (c.setup w s es numbered) false moves left) :
    Settles es.length (feedEnding (Feed.failure? (numbered.map (·.step))))
      (numberedBodies (numbered.map (·.step))) (Readable w options.input) left := by
  have ready' := ready.change w.exchange c.ids
  have foretold := foretold_of_returns ready' alone returns
  have feed : (timedSetup { w with ids := c.ids } s es numbered c.arrival).feed = _ :=
    timedSetup_feed ready'
  obtain ⟨t, result, run, finished, rfl⟩ := run_of_returns ready' returns
  have received := traffic_of_run ready run result
  rw [List.map_map] at received
  constructor
  case ending =>
    cases failure : Feed.failure? (numbered.map (·.step)) with
    | none =>
      obtain ⟨⟨summary, well, -⟩, -⟩ := foretold.well (feed ▸ failure)
      rw [well]
      rfl
    | some error =>
      rw [foretold.failed (feed ▸ failure)]
      rfl
  case agents =>
    rw [traffic, List.length_map, foretold.agents]
    exact List.length_mapIdx
  case begun =>
    rw [received]
    exact List.forall_mem_map.2 fun worker _ => List.take_prefix _ _
  case complete =>
    -- without a failure of the feed every agent has as many calls as the feed has messages
    intro readable
    have unfailed := (unfailed_iff_readable opened).2 readable
    have whole := (foretold.well (feed ▸ unfailed)).2
    rw [received]
    refine List.forall_mem_map.2 fun worker mem => ?_
    have messages := congrArg List.length (whole worker.calls (List.mem_map_of_mem mem))
    rw [List.length_map, feed] at messages
    refine List.take_of_length_le ?_
    simp [numberedBodies, bodies, Relay.length_requests, messages]

/-- Agents behind connections are alike if their calls take equally long. -/
theorem twin_remoteAgent {ids ids' : ℕ → String} {limit : ℕ} (e : Endpoint)
    {arrival arrival' : ℕ → Rpc.Call → Transport.Arrival}
    (keeps : ∀ index number message,
      (arrival index (Transport.numberedCall index (.tag ids number message))).wait limit =
        (arrival' index (Transport.numberedCall index (.tag ids' number message))).wait limit) :
    Agent.Twin ids ids' limit (Transport.remoteAgent e arrival)
      (Transport.remoteAgent e arrival') where
  address := rfl
  steady := steady_remoteAgent e arrival limit
  steady' := steady_remoteAgent e arrival' limit
  duration index := by
    rintro _ _ ⟨number, message⟩
    rw [(Transport.booked e arrival limit index _).1, (Transport.booked e arrival' limit index _).1]
    exact keeps index number message

theorem alike_of_keepsTime (keeps : c.KeepsTime c' s.callTimeout.toNat) :
    (Relay.State.start (c.setup w s es numbered) false).Alike
      (.start (c'.setup w s es numbered) false) := by
  have agents : List.Forall₂ (Agent.Twin c.ids c'.ids s.callTimeout.toNat)
      (es.mapIdx fun n e => Transport.remoteAgent e (c.arrival n e))
      (es.mapIdx fun n e => Transport.remoteAgent e (c'.arrival n e)) := by
    refine List.forall₂_iff_get.2 ⟨?_, fun n _ _ => ?_⟩
    · rw [List.length_mapIdx, List.length_mapIdx]
    · rw [List.get_eq_getElem, List.get_eq_getElem, List.getElem_mapIdx, List.getElem_mapIdx]
      exact twin_remoteAgent _ (keeps n _)
  apply Relay.alike_start
  case agents => exact agents
  all_goals rfl

/-- Results that are alike end a run in the same way. -/
theorem relayEnding_eq {r r' : Except RunError Relay.Summary} (twin : Relay.ResultTwin r r') :
    Run.relayEnding r = Run.relayEnding r' := by
  cases twin with
  | ok => rfl
  | error => rfl

/-- With calls that take as long, the same steps lead to the same ending and the same traffic. -/
theorem returns_of_keepsTime (ready : Run.Ready w options s es)
    (keeps : c.KeepsTime c' s.callTimeout.toNat)
    (returns : Relay.Returns (c.setup w s es numbered) false moves left) :
    ∃ left', Relay.Returns (c'.setup w s es numbered) false moves left' ∧
      Run.relayEnding left'.result = Run.relayEnding left.result ∧ traffic left' = traffic left := by
  obtain ⟨t, result, run, finished, rfl⟩ :=
    run_of_returns (ready.change w.exchange c.ids) returns
  obtain ⟨t', run', alike⟩ := (alike_of_keepsTime keeps).run run
  have results := alike.supervisor.result
  rw [finished] at results
  generalize finished' : t'.supervisor.result = other at results
  cases results with
  | @some _ result' twin =>
    have launched : Relay.launch (c'.setup w s es numbered) false = _ :=
      timedSetup_launch (ready.change w.exchange c'.ids)
    refine ⟨Run.leaves result' t', .ended launched run' finished', (relayEnding_eq twin).symm, ?_⟩
    rw [traffic_of_run ready run', traffic_of_run ready run, alike.counts_eq]

/-- The command itself has run a relay, it has ended in a certain way, and its agents received certain
bodies. -/
structure Executes (es : List Endpoint) (setup : Relay.Setup) (report : Report) (ending : Ending)
    (received : List (List String)) : Prop where
  code : report.code = ending.code
  failure : report.failure = ending.failure?
  returned : ∃ moves left, .raise ∉ moves ∧ Relay.Returns setup false moves left ∧
    Run.Reports es report left ∧ traffic left = received

/-- What the agents receive when the run is carried out. -/
def received (c : Conduct) (w : World) (s : Settings) (es : List Endpoint)
    (numbered : List Feed.Lines.Numbered) : List (List String) :=
  let t := (Relay.State.start (c.setup w s es numbered) false).run none
  (t.workers.map (·.calls.length)).map (numberedBodies (numbered.map (·.step))).take

theorem received_eq (keeps : c.KeepsTime c' s.callTimeout.toNat) :
    received c w s es numbered = received c' w s es numbered := by
  have alike : (Relay.State.start (c.setup w s es numbered) false).Alike _ :=
    alike_of_keepsTime keeps
  rw [received, received, (alike.carriedOut none).counts_eq]

theorem executes_perform (ready : Run.Ready w options s es)
    (opened : w.open options.input = .ok numbered) (level : Option String) (json : Bool)
    (exchange : Endpoint → ℕ → Rpc.Call → Transport.Arrival) {ids : ℕ → String}
    (distinct : Function.Injective ids) :
    Executes es (Run.setup { w with exchange, ids } s es numbered)
      (perform { w with exchange, ids } ⟨level, json, .run options⟩)
      (feedEnding (Feed.failure? (numbered.map (·.step))))
      (received (.ofExchange exchange distinct) w s es numbered) := by
  have ready' := ready.change exchange ids
  have same := Conduct.setup_ofExchange w s es numbered exchange distinct
  obtain ⟨moves, result, alone, run, finished, failure, reports⟩ :=
    ready'.carriedOut opened level json
  have returns := Relay.Returns.ended (ready'.launch_eq (List.length_map _) rfl) run finished
  have settles : Settles _ _ _ _ _ := settles_of_returns ready opened alone (same ▸ returns)
  constructor
  case code => exact reports.code.trans (congrArg Ending.code settles.ending)
  case failure => exact failure.trans (congrArg Ending.failure? settles.ending)
  case returned =>
    refine ⟨moves, _, alone, returns, reports, ?_⟩
    rw [← same] at run ⊢
    exact traffic_of_run ready run result

/-- The run that is carried out returns, with the calls that it has made. -/
theorem exists_returns (ready : Run.Ready w options s es) (c : Conduct)
    (numbered : List Feed.Lines.Numbered) :
    ∃ moves left, .raise ∉ moves ∧ Relay.Returns (c.setup w s es numbered) false moves left ∧
      (traffic left).map List.length =
        ((Relay.State.start (c.setup w s es numbered) false).run none).workers.map
          (·.calls.length) := by
  have feeds : (c.setup w s es numbered).feed = _ := setup_feed ready
  have noisy : .quiet ∉ (c.setup w s es numbered).feed := feeds ▸ Run.quiet_notMem_steps
  have settled : (Relay.State.start (c.setup w s es numbered) false).Settled none :=
    fun _ never => nomatch never
  obtain ⟨moves, result, alone, run, finished⟩ := Run.run_to_end settled (.inl noisy)
  have launched : Relay.launch (c.setup w s es numbered) false = _ :=
    timedSetup_launch (ready.change w.exchange c.ids)
  refine ⟨moves, _, alone rfl, .ended launched run finished, ?_⟩
  rw [length_traffic, List.map_map]
  rfl

/-- A run ends well if its input can be read to its end, and only then. -/
theorem code_feedEnding (opened : w.open options.input = .ok numbered) :
    (feedEnding (Feed.failure? (numbered.map (·.step)))).code = 0 ↔ Readable w options.input := by
  rw [← unfailed_iff_readable opened]
  cases Feed.failure? (numbered.map (·.step)) <;> simp [feedEnding, Ending.code]

end Ready

/-- How a run ends does not depend on what its agents answer or when, and neither does what each of
them receives: all of one sequence if the input can be read to its end, and a beginning of it if it
cannot. How much of it depends on nothing but how long the calls take and on the order of the steps, so
in the command itself it is the same whatever is answered after the same time, as when all agents
answer at once. -/
theorem regardless_of_conduct {w : World} {options : RunOptions} {s : Settings} {es : List Endpoint}
    {numbered : List Feed.Lines.Numbered} (ready : Run.Ready w options s es)
    (opened : w.open options.input = .ok numbered) :
    let ending := feedEnding (Feed.failure? (numbered.map (·.step)))
    let whole := numberedBodies (numbered.map (·.step))
    (ending.code = 0 ↔ Readable w options.input) ∧
    (∀ c : Conduct,
      Relay.Inevitable (fun t => ∃ moves left, .raise ∉ moves ∧
        Relay.Returns (c.setup w s es numbered) false moves left ∧
        t.supervisor.result = some left.result) (.start (c.setup w s es numbered) false) ∧
      ∀ moves left, .raise ∉ moves → Relay.Returns (c.setup w s es numbered) false moves left →
        Settles es.length ending whole (Readable w options.input) left) ∧
    (∀ c c' : Conduct, c.KeepsTime c' s.callTimeout.toNat →
      received c w s es numbered = received c' w s es numbered ∧
      ∀ moves left, Relay.Returns (c.setup w s es numbered) false moves left →
        ∃ left', Relay.Returns (c'.setup w s es numbered) false moves left' ∧
          Run.relayEnding left'.result = Run.relayEnding left.result ∧
          traffic left' = traffic left) ∧
    ∀ level json exchange (ids : ℕ → String) (distinct : Function.Injective ids),
      Executes es (Run.setup { w with exchange, ids } s es numbered)
        (perform { w with exchange, ids } ⟨level, json, .run options⟩) ending
        (received (.ofExchange exchange distinct) w s es numbered) := by
  intro ending whole
  refine ⟨code_feedEnding opened, fun c => ⟨?_, fun moves left alone returns => ?_⟩, ?_, ?_⟩
  · exact inevitable_returns (ready.change w.exchange c.ids)
  · exact settles_of_returns ready opened alone returns
  · exact fun c c' keeps =>
      ⟨received_eq keeps, fun moves left returns => returns_of_keepsTime ready keeps returns⟩
  · exact fun level json exchange ids distinct =>
      executes_perform ready opened level json exchange distinct

/-- No answer makes a run end well whose input goes on with a line that is no text. -/
theorem regardless_of_conduct_tornWorld :
    let s := Run.merge .default tornOptions
    let es : List Endpoint := [⟨.http, "a", 50051, ""⟩, ⟨.http, "b", 80, ""⟩]
    ∃ numbered, Run.Ready tornWorld tornOptions s es ∧
      tornWorld.open tornOptions.input = .ok numbered ∧ ¬ Readable tornWorld tornOptions.input ∧
      Function.Injective numberedId ∧
      ∀ exchange, (perform { tornWorld with exchange, ids := numberedId }
        ⟨none, false, .run tornOptions⟩).code ≠ 0 := by
  intro s es
  have unreadable : ¬ Readable tornWorld tornOptions.input := by
    rintro ⟨bytes, holds, texts⟩
    cases holds with
    | typed =>
      have cut : Feed.Lines.split tornWorld.input = wholeLines ++ [[0xff]] := by decide +kernel
      have text := texts [0xff] (by rw [cut]; simp)
      exact absurd text (by decide +kernel)
    | file named => exact named rfl
  refine ⟨_, ready_tornWorld, rfl, unreadable, numberedId_injective, fun exchange code => ?_⟩
  obtain ⟨readable, -, -, executes⟩ := regardless_of_conduct ready_tornWorld rfl
  have executed := executes none false exchange numberedId numberedId_injective
  exact unreadable (readable.1 (executed.code.symm.trans code))

/-- The line of an event. -/
def eventLine (e : Event) : List UInt8 :=
  Text.Utf8.encode ((Event.codec.encode e).chars ++ ['\n'])

/-- A world in which the input has two events and goes on with a line that is no text. -/
def fadingWorld : World :=
  { tornWorld with
    input := eventLine Relay.plainEvent ++ eventLine Relay.plainEvent ++ [0xff] }

theorem ready_fadingWorld :
    Run.Ready fadingWorld tornOptions (Run.merge .default tornOptions)
      [⟨.http, "a", 50051, ""⟩, ⟨.http, "b", 80, ""⟩] where
  merged := ⟨.default, rfl, rfl⟩
  valid := ready_tornWorld.valid
  addresses := ready_tornWorld.addresses
  reachable _ _ := rfl
  room := ready_tornWorld.room
  uninterrupted := rfl

/-- A line with the text of an event makes that event. -/
theorem item?_of_lineText {line : List UInt8} {e : Event}
    (text : Feed.Lines.lineText line = .ok (Event.codec.encode e).chars) (number : ℕ) :
    Feed.Lines.item? number line = some (.event e) := by
  have kept : Event.codec.Keeps Json.asWritten Json.maxDepth e := e.keeps Json.arrangement_asWritten
  have read : Event.codec.read (Event.codec.write e) = .ok e := kept.recovers
  obtain ⟨c, rest, chars, -⟩ := Json.Value.chars_cons kept.exactly
  rw [Json.Codec.write, Json.Value.text, chars] at read
  rw [Feed.Lines.item?, text, chars]
  dsimp only [Feed.Item.ofText]
  rw [read]

/-- What the input of that world makes. -/
theorem makes_fadingWorld :
    Makes (Feed.Lines.read .plain chunkSize fadingWorld.input)
      [.event Relay.plainEvent, .event Relay.plainEvent]
      (some (.io "stream did not contain valid UTF-8")) := by
  have cut : Feed.Lines.split fadingWorld.input =
      [eventLine Relay.plainEvent, eventLine Relay.plainEvent] ++ [[0xff]] := by decide +kernel
  have text : Feed.Lines.lineText (eventLine Relay.plainEvent) =
      .ok (Event.codec.encode Relay.plainEvent).chars := by decide +kernel
  have texts : ∀ line ∈ [eventLine Relay.plainEvent, eventLine Relay.plainEvent],
      Feed.Lines.IsText line := by decide +kernel
  rw [Makes, Feed.Lines.read_eq, cut, Feed.Lines.results_ofLines_append _ _ texts,
    Feed.Lines.itemsOf_cons, Feed.Lines.itemsOf_cons, item?_of_lineText text, item?_of_lineText text]
  rfl

/-- Agents that all let a connection break off after a while. -/
def lagging (delay : ℕ) : Conduct where
  arrival _ _ _ _ := .after delay (.lost "broken off")
  ids := numberedId
  distinct := numberedId_injective

/-- If the input fails, agents that take their time receive less. -/
theorem traffic_sways :
    let s := Run.merge .default tornOptions
    let es : List Endpoint := [⟨.http, "a", 50051, ""⟩, ⟨.http, "b", 80, ""⟩]
    ∃ numbered moves moves' left left',
      Run.Ready fadingWorld tornOptions s es ∧
      fadingWorld.open tornOptions.input = .ok numbered ∧ .raise ∉ moves ∧ .raise ∉ moves' ∧
      Relay.Returns ((lagging 0).setup fadingWorld s es numbered) false moves left ∧
      Relay.Returns ((lagging 20).setup fadingWorld s es numbered) false moves' left' ∧
      traffic left ≠ traffic left' := by
  intro s es
  let numbered := Feed.Lines.read .plain chunkSize fadingWorld.input
  -- the input is read once and for all, so that the two runs are short computations
  have explicit (delay : ℕ) : (lagging delay).setup fadingWorld s es numbered =
      { (lagging delay).setup fadingWorld s es [] with
        feed := [.item (.event Relay.plainEvent), .item (.event Relay.plainEvent),
          .fail (.io "stream did not contain valid UTF-8")] } := by
    have feed : ((lagging delay).setup fadingWorld s es numbered).feed = _ :=
      (setup_feed ready_fadingWorld).trans makes_fadingWorld.steps
    exact congrArg (fun feed => { (lagging delay).setup fadingWorld s es [] with feed }) feed
  have run (delay : ℕ) := exists_returns ready_fadingWorld (lagging delay) numbered
  obtain ⟨moves, left, alone, returned, lengths⟩ := run 0
  obtain ⟨moves', left', alone', returned', lengths'⟩ := run 20
  refine ⟨numbered, moves, moves', left, left', ready_fadingWorld, rfl, alone, alone', returned,
    returned', fun same => ?_⟩
  rw [same, lengths', explicit, explicit] at lengths
  revert lengths
  decide +kernel

end TxRelay.Command
